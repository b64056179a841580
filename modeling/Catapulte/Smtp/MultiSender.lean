import Catapulte.Domain.RoutedEmailSender
import Catapulte.Queue.Jetstream

namespace Catapulte

open Nats (parseU64 splitCommas trim)

inductive SmtpTls
  | starttls
  | tls
  | none
  deriving DecidableEq

structure SmtpConfig where
  host : String
  port : UInt16
  username : Option String
  password : Option String
  tls : SmtpTls

def parsePort (raw : Option String) (key : String) : Except String UInt16 :=
  match raw with
  | some val =>
      match (parseU64 val.toList).filter (· < 2 ^ 16) with
      | some n => .ok (.ofNat n)
      | none => .error s!"invalid value for env var {key}"
  | none => .ok 587

def parseTls (raw : Option String) (key : String) : Except String SmtpTls :=
  match raw with
  | none => .ok .starttls
  | some "starttls" => .ok .starttls
  | some "tls" => .ok .tls
  | some "none" => .ok .none
  | some other => .error s!"unknown value for env var {key}: {other}"

/-- `lookup` gives the variables that are set to a Unicode value. -/
def SmtpConfig.fromLookup (pfx : String) (lookup : String → Option String) : Except String SmtpConfig := do
  let hostKey := pfx ++ "_HOST"
  let some host := lookup hostKey | .error s!"missing env var {hostKey}"
  let port ← parsePort (lookup (pfx ++ "_PORT")) (pfx ++ "_PORT")
  let username := lookup (pfx ++ "_USERNAME")
  let password := lookup (pfx ++ "_PASSWORD")
  let smtpTls ← parseTls (lookup (pfx ++ "_TLS")) (pfx ++ "_TLS")
  pure { host, port, username, password, tls := smtpTls }

structure SingleSenderConfig where
  name : SenderName
  smtp : SmtpConfig
  priority : UInt8
  quota : Option SenderQuota
  matchSenderDomain : Option String

structure MultiSenderConfig where
  senders : List SingleSenderConfig

def parsePriority (raw : Option String) (key : String) : Except String UInt8 :=
  match raw with
  | none => .ok 100
  | some val =>
      match (parseU64 val.toList).filter (· < 2 ^ 8) with
      | some n => .ok (.ofNat n)
      | none => .error s!"invalid value for env var {key}"

def parseQuotaRange (val key : String) : Except String QuotaRange :=
  match val with
  | "hourly" => .ok .hourly
  | "daily" => .ok .daily
  | "weekly" => .ok .weekly
  | "monthly" => .ok .monthly
  | other => .error s!"unknown value for env var {key}: {other}"

def parseQuota (pfx : String) (lookup : String → Option String) : Except String (Option SenderQuota) :=
  let countKey := pfx ++ "_QUOTA_COUNT"
  let rangeKey := pfx ++ "_QUOTA_RANGE"
  match lookup countKey, lookup rangeKey with
  | none, none => .ok none
  | some countStr, some rangeStr => do
      let some count := parseU64 countStr.toList | .error s!"invalid value for env var {countKey}"
      let range ← parseQuotaRange rangeStr rangeKey
      pure (some ⟨count, range⟩)
  | some _, none => .error s!"env var {countKey} is set but {rangeKey} is missing"
  | none, some _ => .error s!"env var {rangeKey} is set but {countKey} is missing"

/-- The closure that reads one sender. `toUppercase` is `str::to_uppercase`. -/
def SingleSenderConfig.fromLookup (toUppercase : String → String) (lookup : String → Option String) (rawName : String) :
    Except String SingleSenderConfig := do
  let pfx := "CATAPULTE_SENDER_" ++ toUppercase rawName
  let smtp ← SmtpConfig.fromLookup pfx lookup
  let priority ← parsePriority (lookup (pfx ++ "_PRIORITY")) (pfx ++ "_PRIORITY")
  let quota ← parseQuota pfx lookup
  let matchSenderDomain := (lookup (pfx ++ "_MATCH_DOMAIN")).map (fun v => trim v.toList) |>.filter (· ≠ [])
  pure { name := ⟨rawName⟩, smtp, priority, quota, matchSenderDomain := matchSenderDomain.map String.ofList }

namespace MultiSenderConfig

def fromLookup (toUppercase : String → String) (lookup : String → Option String) : Except String MultiSenderConfig := do
  let some namesRaw := lookup "CATAPULTE_SENDERS" | .error "missing env var CATAPULTE_SENDERS"
  let names := ((splitCommas namesRaw.toList).map trim).filter (· ≠ [])
  let senders ← names.mapM fun rawName => SingleSenderConfig.fromLookup toUppercase lookup (String.ofList rawName)
  pure ⟨senders.insertionSort fun a b => a.priority ≤ b.priority⟩

/-- The routes that the application makes of the senders. -/
def routes (config : MultiSenderConfig) : List SenderRoute :=
  config.senders.map fun sender => ⟨sender.name, sender.priority, sender.quota, sender.matchSenderDomain⟩

variable {toUppercase : String → String} {lookup : String → Option String} {config : MultiSenderConfig}
  {sender sender' : SingleSenderConfig}

theorem exists_of_mapM_eq_ok {ε α β : Type} {f : α → Except ε β} {as : List α} {bs : List β} (h : as.mapM f = .ok bs) {b : β}
    (hb : b ∈ bs) : ∃ a ∈ as, f a = .ok b := by
  induction as generalizing bs with
  | nil =>
      cases h
      cases hb
  | cons a as ih =>
      rw [List.mapM_cons] at h
      obtain ⟨b', hb', h⟩ := exists_of_bind_eq_ok h
      obtain ⟨bs', hbs', h⟩ := exists_of_bind_eq_ok h
      cases h
      rcases List.mem_cons.mp hb with rfl | hb
      · exact ⟨a, List.mem_cons_self, hb'⟩
      · obtain ⟨a', ha', heq⟩ := ih hbs' hb
        exact ⟨a', List.mem_cons_of_mem _ ha', heq⟩

theorem name_of_fromLookup {rawName : String} (h : SingleSenderConfig.fromLookup toUppercase lookup rawName = .ok sender) :
    sender.name = ⟨rawName⟩ := by
  rw [SingleSenderConfig.fromLookup] at h
  obtain ⟨smtp, -, h⟩ := exists_of_bind_eq_ok h
  obtain ⟨priority, -, h⟩ := exists_of_bind_eq_ok h
  obtain ⟨quota, -, h⟩ := exists_of_bind_eq_ok h
  cases h
  rfl

theorem sender_of_name (h : fromLookup toUppercase lookup = .ok config) (hs : sender ∈ config.senders)
    (hs' : sender' ∈ config.senders) (hname : sender.name = sender'.name) : sender = sender' := by
  rw [fromLookup] at h
  split at h
  · obtain ⟨senders, hsenders, h⟩ := exists_of_bind_eq_ok h
    cases h
    obtain ⟨rawName, -, hraw⟩ := exists_of_mapM_eq_ok hsenders ((List.mem_insertionSort _).mp hs)
    obtain ⟨rawName', -, hraw'⟩ := exists_of_mapM_eq_ok hsenders ((List.mem_insertionSort _).mp hs')
    rw [name_of_fromLookup hraw, name_of_fromLookup hraw', SenderName.mk.injEq] at hname
    rw [hname, hraw'] at hraw
    cases hraw
    rfl
  · cases h

end MultiSenderConfig

end Catapulte
