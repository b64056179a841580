import Mathlib.Data.List.DropRight
import Mathlib.Data.List.Sort
import Catapulte.Domain.SenderQuota

namespace Catapulte

/-- What `send` itself reads of an email; the transports get it as it is. -/
structure OutboundEmail where
  sender : String
  deriving DecidableEq, Repr

structure SenderUsage (M : Type → Type) where
  getStats : List SenderName → Int → M (Except SenderUsageError (List SenderStats))

structure EmailTransport (M : Type → Type) where
  deliver : SenderRoute → OutboundEmail → M (Except String Unit)

/-- The order in which a `HashMap` yields the groups is not specified. -/
structure HashOrder where
  iterate : List (Int × List SenderName) → List (Int × List SenderName)
  perm : ∀ groups, (iterate groups).Perm groups

inductive RoutedEmailSenderError
  | emptyRoutes
  deriving DecidableEq, Repr

/-- `s.trim_end_matches('.').to_ascii_lowercase()`. -/
def normalizeDomain (s : String) : String :=
  String.ofList ((s.toList.rdropWhile (· = '.')).map Char.toLower)

def SenderRoute.normalize (route : SenderRoute) : SenderRoute :=
  { route with matchSenderDomain := route.matchSenderDomain.map normalizeDomain }

def afterLast (c : Char) : List Char → Option (List Char)
  | [] => none
  | d :: rest =>
      match afterLast c rest with
      | some tail => some tail
      | none => if d = c then some rest else none

/-- A sender without `@` has the empty domain. -/
def OutboundEmail.senderDomain (email : OutboundEmail) : String :=
  ((afterLast '@' email.sender.toList).map fun domain => normalizeDomain (String.ofList domain)).getD ""

structure RoutedEmailSender where
  routes : List SenderRoute
  nonempty : routes ≠ []

namespace RoutedEmailSender

def byPriority (a b : SenderRoute) : Prop := a.priority ≤ b.priority

instance : DecidableRel byPriority := fun a b => inferInstanceAs (Decidable (a.priority ≤ b.priority))

/-- `routes.sort_by_key(|r| r.priority)`. -/
def sortByPriority (routes : List SenderRoute) : List SenderRoute := routes.insertionSort byPriority

theorem sortByPriority_ne_nil {routes : List SenderRoute} (h : routes ≠ []) :
    sortByPriority (routes.map SenderRoute.normalize) ≠ [] := by
  intro hnil
  have hlen := (List.perm_insertionSort byPriority (routes.map SenderRoute.normalize)).length_eq
  rw [sortByPriority] at hnil
  rw [hnil, List.length_map] at hlen
  exact h (List.length_eq_zero_iff.mp hlen.symm)

def new (routes : List SenderRoute) : Except RoutedEmailSenderError RoutedEmailSender :=
  if h : routes = [] then .error .emptyRoutes
  else .ok ⟨sortByPriority (routes.map SenderRoute.normalize), sortByPriority_ne_nil h⟩

/-- The routes of the domain, then the catch-all routes. -/
def candidates (self : RoutedEmailSender) (senderDomain : String) : List SenderRoute :=
  self.routes.filter (fun r => r.matchSenderDomain.any (· = senderDomain)) ++
    self.routes.filter (fun r => r.matchSenderDomain.isNone)

variable {M : Type → Type} [Monad M]

def querySent (usage : SenderUsage M) :
    List (Int × List SenderName) → List (SenderName × Nat) → M (List (SenderName × Nat))
  | [], sentMap => return sentMap
  | (sinceMs, names) :: groups, sentMap => do
      let answer ← usage.getStats names sinceMs
      querySent usage groups (insertAnswer sentMap answer)

def tryRoutes (transport : EmailTransport M) (email : OutboundEmail) (skip : SenderRoute → Bool) :
    List SenderRoute → Option SendError → M (Except (Option SendError) SenderName)
  | [], lastErr => return .error lastErr
  | route :: rest, lastErr =>
      if skip route then tryRoutes transport email skip rest lastErr
      else do
        match ← transport.deliver route email with
        | .ok () => return .ok route.name
        | .error err => tryRoutes transport email skip rest (some (.send route.name err))

/-- The pass that ignores the quotas. `none` is the branch marked `unreachable!`. -/
def bypassQuota (transport : EmailTransport M) (email : OutboundEmail) (candidates : List SenderRoute) :
    M (Option (Except SendError SenderName)) := do
  match ← tryRoutes transport email (fun _ => false) candidates none with
  | .ok name => return some (.ok name)
  | .error (some err) => return some (.error err)
  | .error none => return none

def send (self : RoutedEmailSender) (usage : SenderUsage M) (transport : EmailTransport M) (order : HashOrder)
    (nowMs : Int) (email : OutboundEmail) : M (Option (Except SendError SenderName)) :=
  let candidates := self.candidates email.senderDomain
  if candidates.isEmpty then return some (.error (.noMatchingRoute email.senderDomain))
  else do
    let sentMap ← querySent usage (order.iterate (sinceMsToNames nowMs candidates)) []
    match ← tryRoutes transport email (overQuota sentMap) candidates none with
    | .ok name => return some (.ok name)
    | .error (some err) => return some (.error err)
    | .error none => bypassQuota transport email candidates

end RoutedEmailSender

end Catapulte
