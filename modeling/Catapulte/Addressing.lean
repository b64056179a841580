import Catapulte.Domain.RoutedEmailSender
import Catapulte.Http.Dto
import Catapulte.Queue.Jetstream
import Catapulte.Text.Address

namespace Catapulte

open Text

section AfterLast

variable {c : Char} {l r tail : List Char}

theorem afterLast_eq_none_iff : afterLast c l = none ↔ c ∉ l := by
  induction l with
  | nil => exact ⟨fun _ => List.not_mem_nil, fun _ => rfl⟩
  | cons d l ih =>
      rw [afterLast]
      split
      · rename_i tail htail
        constructor
        · intro h
          cases h
        · intro h
          rw [ih.mpr fun hl => h (List.mem_cons_of_mem d hl)] at htail
          cases htail
      · rename_i hnone
        split
        · rename_i hd
          exact ⟨fun h => (by cases h), fun h => absurd (hd ▸ List.mem_cons_self) h⟩
        · rename_i hd
          refine ⟨fun _ hmem => ?_, fun _ => rfl⟩
          rcases List.mem_cons.mp hmem with hc | hl
          · exact hd hc.symm
          · exact ih.mp hnone hl

theorem notMem_afterLast (h : afterLast c l = some tail) : c ∉ tail := by
  induction l with
  | nil => cases h
  | cons d l ih =>
      rw [afterLast] at h
      split at h
      · cases h
        exact ih ‹_›
      · split at h
        · cases h
          exact afterLast_eq_none_iff.mp ‹_›
        · cases h

theorem afterLast_append : afterLast c (l ++ c :: r) = some ((afterLast c r).getD r) := by
  induction l with
  | nil =>
      rw [List.nil_append, afterLast]
      cases afterLast c r with
      | none => exact if_pos rfl
      | some tail => rfl
  | cons d l ih => rw [List.cons_append, afterLast, ih]

end AfterLast

section Denoted

variable {blank : Char → Bool} {mailbox : Mailbox blank} {tail : List Char}

theorem at_mem_of_mem_lower {cs : List Char} (h : '@' ∈ lower cs) : '@' ∈ cs := by
  obtain ⟨c, hc, hlower⟩ := List.mem_map.mp h
  rwa [(toLower_eq_iff (by decide) (by decide)).mp hlower] at hc

theorem exists_afterLast (mailbox : Mailbox blank) : ∃ tail, afterLast '@' mailbox.text = some tail := by
  obtain ⟨front, behind, htext, -⟩ := mailbox.text_split
  rw [htext, afterLast_append]
  exact ⟨_, rfl⟩

theorem lower_ne_of_afterLast (hdot : blank '.' = false) (hat : blank '@' = false)
    (htail : afterLast '@' mailbox.text = some tail) (hne : tail ≠ mailbox.address.domain.text) :
    lower (dropDots tail) ≠ lower mailbox.address.domain.text := by
  intro hlower
  by_cases hmem : '@' ∈ mailbox.address.domain.text
  · have hlowered : '@' ∈ lower mailbox.address.domain.text := List.mem_map.mpr ⟨'@', hmem, rfl⟩
    rw [← hlower] at hlowered
    exact notMem_afterLast htail ((List.rdropWhile_prefix _ _).subset (at_mem_of_mem_lower hlowered))
  · obtain ⟨front, behind, htext, hbehind⟩ := mailbox.text_split
    have hnone : afterLast '@' (mailbox.address.domain.text ++ behind) = none := by
      rw [afterLast_eq_none_iff, List.mem_append]
      rintro (h | h)
      · exact hmem h
      · rcases hbehind with rfl | ⟨blanks, rfl, hblanks⟩
        · cases h
        · rcases List.mem_cons.mp h with h | h
          · cases h
          · cases hat.symm.trans (hblanks _ h)
    rw [htext, afterLast_append, hnone, Option.getD_none, Option.some.injEq] at htail
    subst htail
    rcases hbehind with rfl | ⟨blanks, rfl, hblanks⟩
    · exact hne (List.append_nil _)
    · have hlast : (mailbox.address.domain.text ++ '>' :: blanks).getLast? ≠ some '.' := by
        rw [List.getLast?_append_of_ne_nil _ (List.cons_ne_nil _ _)]
        intro h
        rcases List.mem_cons.mp (List.mem_of_getLast? h) with h | h
        · cases h
        · cases hdot.symm.trans (hblanks _ h)
      have hlength := congrArg List.length hlower
      rw [dropDots_of_getLast? hlast] at hlength
      simp only [lower, List.length_map, List.length_append, List.length_cons] at hlength
      omega

end Denoted

namespace RoutedEmailSender

def matched (self : RoutedEmailSender) (email : OutboundEmail) : List SenderRoute :=
  self.routes.filter fun r => r.matchSenderDomain.any (· = email.senderDomain)

/-- The route is configured for the domain. -/
def Serves (route : SenderRoute) (domain : List Char) : Prop :=
  ∃ d, route.matchSenderDomain = some d ∧ SameDomain d.toList domain

/-- The candidates found by the domain are the routes that are configured for it. -/
structure Follows (routes : List SenderRoute) (router : RoutedEmailSender) (email : OutboundEmail)
    (domain : List Char) : Prop where
  configured : ∀ r ∈ router.matched email, ∃ route ∈ routes, route.normalize = r
  exactly : ∀ route ∈ routes, route.normalize ∈ router.matched email ↔ Serves route domain

variable {routes : List SenderRoute} {self : RoutedEmailSender} {email : OutboundEmail} {route : SenderRoute}
  {tail domain : List Char}

theorem candidates_eq : self.candidates email.senderDomain =
    self.matched email ++ self.routes.filter (fun r => r.matchSenderDomain.isNone) := rfl

theorem mem_routes_of_new (h : new routes = .ok self) {r : SenderRoute} :
    r ∈ self.routes ↔ ∃ route ∈ routes, route.normalize = r := by
  rw [new] at h
  split at h
  · cases h
  · cases h
    rw [← List.mem_map]
    exact (List.perm_insertionSort byPriority (routes.map SenderRoute.normalize)).mem_iff

theorem normalizeDomain_eq (d : String) : normalizeDomain d = String.ofList (lower (dropDots d.toList)) := rfl

theorem senderDomain_eq (h : afterLast '@' email.sender.toList = some tail) :
    email.senderDomain = String.ofList (lower (dropDots tail)) := by
  rw [OutboundEmail.senderDomain, h, Option.map_some, Option.getD_some, normalizeDomain_eq, String.toList_ofList]

theorem normalize_mem_matched (hnew : new routes = .ok self) (h : afterLast '@' email.sender.toList = some tail)
    (hroute : route ∈ routes) : route.normalize ∈ self.matched email ↔
      ∃ d, route.matchSenderDomain = some d ∧ lower (dropDots d.toList) = lower (dropDots tail) := by
  rw [matched, List.mem_filter, mem_routes_of_new hnew, senderDomain_eq h]
  constructor
  · rintro ⟨-, hany⟩
    cases hd : route.matchSenderDomain with
    | none =>
        rw [SenderRoute.normalize, hd] at hany
        cases hany
    | some d =>
        rw [SenderRoute.normalize, hd, Option.map_some, Option.any_some, decide_eq_true_iff, normalizeDomain_eq] at hany
        exact ⟨d, rfl, String.ofList_injective hany⟩
  · rintro ⟨d, hd, hlower⟩
    refine ⟨⟨route, hroute, rfl⟩, ?_⟩
    rw [SenderRoute.normalize, hd, Option.map_some, Option.any_some, decide_eq_true_iff, normalizeDomain_eq, hlower]

/-- The configured domain `d` makes no difference between the domain of the address and
what follows the last `@`. If they are the same text, `d` does not match it by dropping
several dots. If not, `d` matches neither. -/
def Clear (tail domain d : List Char) : Prop :=
  if tail = domain then ¬ (lower (dropDots d) = lower domain ∧ ['.', '.'] <:+ d)
  else ¬ SameDomain d domain ∧ lower (dropDots d) ≠ lower (dropDots tail)

theorem clear_iff {d : List Char} (hdomain : domain.getLast? ≠ some '.')
    (hne : tail ≠ domain → lower (dropDots tail) ≠ lower domain) :
    Clear tail domain d ↔ (lower (dropDots d) = lower (dropDots tail) ↔ SameDomain d domain) := by
  have hsame := sameDomain_iff (a := d) hdomain
  rw [Clear]
  split
  · rename_i heq
    subst heq
    rw [hsame, dropDots_of_getLast? hdomain]
    exact ⟨fun h => ⟨fun hl => ⟨hl, fun hdots => h ⟨hl, hdots⟩⟩, And.left⟩, fun h hl => (h.mp hl.1).2 hl.2⟩
  · rename_i hneq
    constructor
    · intro h
      exact ⟨fun hl => absurd hl h.2, fun hs => absurd hs h.1⟩
    · intro h
      -- One text cannot look like both.
      have hnot : ¬ SameDomain d domain := by
        intro hs
        exact hne hneq ((h.mpr hs).symm.trans (hsame.mp hs).1)
      exact ⟨hnot, fun hl => hnot (h.mp hl)⟩

theorem follows_iff (hnew : new routes = .ok self) (h : afterLast '@' email.sender.toList = some tail)
    (hdomain : domain.getLast? ≠ some '.') (hne : tail ≠ domain → lower (dropDots tail) ≠ lower domain) :
    Follows routes self email domain ↔
      ∀ route ∈ routes, ∀ d, route.matchSenderDomain = some d → Clear tail domain d.toList := by
  constructor
  · intro hfollows route hroute d hd
    rw [clear_iff hdomain hne]
    have hexactly := hfollows.exactly route hroute
    rw [normalize_mem_matched hnew h hroute] at hexactly
    constructor
    · intro hl
      obtain ⟨d', hd', hs⟩ := hexactly.mp ⟨d, hd, hl⟩
      cases hd.symm.trans hd'
      exact hs
    · intro hs
      obtain ⟨d', hd', hl⟩ := hexactly.mpr ⟨d, hd, hs⟩
      cases hd.symm.trans hd'
      exact hl
  · intro hclear
    refine ⟨fun r hr => (mem_routes_of_new hnew).mp (List.mem_filter.mp hr).1, fun route hroute => ?_⟩
    rw [normalize_mem_matched hnew h hroute]
    constructor
    · rintro ⟨d, hd, hl⟩
      exact ⟨d, hd, ((clear_iff hdomain hne).mp (hclear route hroute d hd)).mp hl⟩
    · rintro ⟨d, hd, hs⟩
      exact ⟨d, hd, ((clear_iff hdomain hne).mp (hclear route hroute d hd)).mpr hs⟩

/-- The sender of an accepted submission is routed by the domain of its address just when
no configured domain tells that domain from what follows the last `@`. -/
theorem follows_address_iff {parsers : Parsers} {mailboxOf : String → Option (Mailbox Nats.isWhiteSpace)}
    (hparse : ∀ s, parsers.emailAddress s = (mailboxOf s).isSome)
    (hgrammar : ∀ s mailbox, mailboxOf s = some mailbox → mailbox.text = s.toList)
    (haccepted : validateSender parsers email.sender = .ok ()) (hnew : new routes = .ok self) :
    ∃ mailbox tail, mailboxOf email.sender = some mailbox ∧ afterLast '@' email.sender.toList = some tail ∧
      (Follows routes self email mailbox.address.domain.text ↔
        ∀ route ∈ routes, ∀ d, route.matchSenderDomain = some d →
          Clear tail mailbox.address.domain.text d.toList) := by
  have hsome : (mailboxOf email.sender).isSome = true := by
    rw [validateSender, hparse] at haccepted
    split at haccepted
    · assumption
    · cases haccepted
  obtain ⟨mailbox, hmailbox⟩ := Option.isSome_iff_exists.mp hsome
  obtain ⟨tail, htail⟩ := exists_afterLast mailbox
  have hsender : afterLast '@' email.sender.toList = some tail := by rw [← hgrammar _ _ hmailbox, htail]
  exact ⟨mailbox, tail, hmailbox, hsender, follows_iff hnew hsender (Domain.getLast?_text _)
    (lower_ne_of_afterLast (by decide) (by decide) htail)⟩

def noreply : AddrSpec where
  localPart := .dotAtom ⟨['n', 'o', 'r', 'e', 'p', 'l', 'y'], [], atoms_of_all rfl⟩
  domain := .dotAtom ⟨['a', 'c', 'm', 'e'], [['c', 'o', 'm']], atoms_of_all rfl⟩

/-- The two senders that are accepted here, with the address they stand for. -/
def acmeMailbox (s : String) : Option (Mailbox Nats.isWhiteSpace) :=
  if s = "noreply@acme.com" then some (.bare noreply)
  else if s = "Acme <noreply@acme.com>" then
    some (.display ['A', 'c', 'm', 'e'] noreply [] fun _ h => absurd h List.not_mem_nil)
  else none

def acmeParsers : Parsers := ⟨fun s => (acmeMailbox s).isSome, fun _ => none, fun _ => none⟩

def acmeRoute : SenderRoute := ⟨⟨"acme"⟩, 0, none, some "ACME.com."⟩

theorem acmeMailbox_text (s : String) (mailbox : Mailbox Nats.isWhiteSpace) (h : acmeMailbox s = some mailbox) :
    mailbox.text = s.toList := by
  rw [acmeMailbox] at h
  split at h
  · cases h
    subst s
    decide
  · split at h
    · cases h
      subst s
      decide
    · cases h

theorem follows_address_iff_bare : ∃ self, new [acmeRoute] = .ok self ∧
    Follows [acmeRoute] self ⟨"noreply@acme.com"⟩ noreply.domain.text := by
  have hparse : ∀ s, acmeParsers.emailAddress s = (acmeMailbox s).isSome := fun s => rfl
  have haccepted : validateSender acmeParsers (OutboundEmail.mk "noreply@acme.com").sender = .ok () := rfl
  have hnew : new [acmeRoute] = .ok ⟨[acmeRoute.normalize], List.cons_ne_nil _ _⟩ := rfl
  obtain ⟨mailbox, tail, hmailbox, htail, hiff⟩ := follows_address_iff hparse acmeMailbox_text haccepted hnew
  have hbare : acmeMailbox "noreply@acme.com" = some (.bare noreply) := if_pos rfl
  cases Option.some.inj (hmailbox.symm.trans hbare)
  refine ⟨_, hnew, hiff.mpr fun route hroute d hd => ?_⟩
  cases List.mem_singleton.mp hroute
  cases hd
  have hsame : tail = (Mailbox.bare noreply : Mailbox Nats.isWhiteSpace).address.domain.text := by
    refine Option.some.inj (htail.symm.trans ?_)
    decide
  rw [Clear, if_pos hsame]
  decide

/-- With a name before the address, the bracket stays at the domain. -/
theorem follows_address_display : ∃ self, new [acmeRoute] = .ok self ∧
    validateSender acmeParsers "Acme <noreply@acme.com>" = .ok () ∧
    (acmeMailbox "Acme <noreply@acme.com>").map Mailbox.address = some noreply ∧
    Serves acmeRoute noreply.domain.text ∧
    self.candidates (OutboundEmail.senderDomain ⟨"Acme <noreply@acme.com>"⟩) = [] ∧
    ¬ Follows [acmeRoute] self ⟨"Acme <noreply@acme.com>"⟩ noreply.domain.text := by
  have hcandidates : RoutedEmailSender.candidates ⟨[acmeRoute.normalize], List.cons_ne_nil _ _⟩
      (OutboundEmail.senderDomain ⟨"Acme <noreply@acme.com>"⟩) = [] := by decide
  have hserves : Serves acmeRoute noreply.domain.text := ⟨"ACME.com.", rfl, by decide⟩
  refine ⟨⟨[acmeRoute.normalize], List.cons_ne_nil _ _⟩, rfl, rfl, rfl, hserves, hcandidates, fun h => ?_⟩
  have hmem := (h.exactly acmeRoute List.mem_cons_self).mpr hserves
  rw [candidates_eq, List.append_eq_nil_iff] at hcandidates
  rw [hcandidates.1] at hmem
  cases hmem

end RoutedEmailSender

end Catapulte
