import Mathlib.Data.List.Basic

namespace Catapulte.Http

structure Authority where
  scheme : String
  host : Option String
  port : Option Nat
  deriving DecidableEq, Repr

structure Request (U N V : Type) where
  url : U
  headers : List (N × V)
  deriving DecidableEq, Repr

/-- What comes of one request. `location` is the header of that name, resolved
against the URL of the request. -/
inductive Answer (U B : Type)
  | response (status : Nat) (location : Option U) (body : B)
  | broken (source : String)

def Answer.redirect? {U B : Type} : Answer U B → Option U
  | response status location _ => if status ∈ [301, 302, 303, 307, 308] then location else none
  | broken _ => none

inductive Policy
  | none
  | limited (max : Nat)
  deriving DecidableEq, Repr

def Policy.max : Policy → Nat
  | none => 0
  | limited max => max

/-- A client is known by the redirects it follows, and by the headers it drops when
one leads to another host or port. -/
structure Client (N : Type) where
  policy : Policy
  credential : N → Bool

variable {U N V B : Type} (authority : U → Authority)

/-- Only requests to the host of an HTTP URL are sent. -/
def Reachable (u : U) : Prop :=
  ((authority u).scheme = "http" ∨ (authority u).scheme = "https") ∧ (authority u).host.isSome = true

instance : DecidablePred (Reachable authority) := fun _ => inferInstanceAs (Decidable (_ ∧ _))

def SameOrigin (u v : U) : Prop :=
  (authority u).host = (authority v).host ∧ (authority u).port = (authority v).port

instance (u v : U) : Decidable (SameOrigin authority u v) := inferInstanceAs (Decidable (_ ∧ _))

/-- The redirects that are followed when the requests are answered like this and no
more than `left` may be. -/
def followed : Nat → (Nat → Answer U B) → List U
  | 0, _ => []
  | left + 1, answers =>
      match (answers 0).redirect? with
      | none => []
      | some u => if Reachable authority u then u :: followed left fun n => answers (n + 1) else []

namespace Client

def kept (client : Client N) (headers : List (N × V)) : List (N × V) :=
  headers.filter fun h => !client.credential h.1

def conclude (client : Client N) (answer : Answer U B) : Except String (Nat × B) :=
  match answer, answer.redirect?, client.policy with
  | .broken source, _, _ => .error source
  | .response .., some _, .limited _ => .error "too many redirects"
  | .response status _ body, _, _ => .ok (status, body)

/-- The requests of one exchange, and the status and body of the last response. -/
def exchange (client : Client N) : Nat → U → List (N × V) → (Nat → Answer U B) →
    List (Request U N V) × Except String (Nat × B)
  | 0, url, headers, answers =>
      if Reachable authority url then ([⟨url, headers⟩], client.conclude (answers 0)) else ([], .error "builder error")
  | left + 1, url, headers, answers =>
      if Reachable authority url then
        match (answers 0).redirect? with
        | none => ([⟨url, headers⟩], client.conclude (answers 0))
        | some next =>
            let rest := client.exchange left next (if SameOrigin authority url next then headers else client.kept headers)
              fun n => answers (n + 1)
            (⟨url, headers⟩ :: rest.1, rest.2)
      else ([], .error "builder error")

def get (client : Client N) (url : U) (headers : List (N × V)) (answers : Nat → Answer U B) :
    List (Request U N V) × Except String (Nat × B) :=
  client.exchange authority client.policy.max url headers answers

variable {authority} {client : Client N} {left : Nat} {url : U} {headers : List (N × V)} {answers : Nat → Answer U B}

@[simp] theorem kept_nil : client.kept ([] : List (N × V)) = [] := rfl

@[simp] theorem kept_kept : client.kept (client.kept headers) = client.kept headers := by
  simp [kept, List.filter_filter]

theorem exchange_of_not_reachable (h : ¬ Reachable authority url) :
    (client.exchange authority left url headers answers).1 = [] := by
  cases left <;> simp only [exchange, if_neg h]

theorem eq_of_mem_exchange {r : Request U N V} (h : r ∈ (client.exchange authority 0 url headers answers).1) :
    r = ⟨url, headers⟩ ∧ Reachable authority url := by
  simp only [exchange] at h
  split at h
  · exact ⟨List.mem_singleton.mp h, ‹_›⟩
  · exact absurd h List.not_mem_nil

theorem exchange_urls (h : Reachable authority url) :
    (client.exchange authority left url headers answers).1.map Request.url =
      url :: followed authority left answers := by
  induction left generalizing url headers answers with
  | zero => simp [exchange, followed, h]
  | succ left ih =>
      simp only [exchange, followed, if_pos h]
      cases (answers 0).redirect? with
      | none => rfl
      | some next =>
          by_cases hr : Reachable authority next
          · simp [hr, ih hr]
          · simp [hr, exchange_of_not_reachable hr]

theorem exchange_headers {home : Option String} {origin : List (N × V)}
    (h : headers = client.kept origin ∨ (authority url).host = home ∧ headers = origin) :
    ∀ r ∈ (client.exchange authority left url headers answers).1,
      r.headers = client.kept origin ∨ (authority r.url).host = home ∧ r.headers = origin := by
  induction left generalizing url headers answers with
  | zero =>
      intro r hr
      obtain ⟨rfl, -⟩ := eq_of_mem_exchange hr
      exact h
  | succ left ih =>
      intro r hr
      simp only [exchange] at hr
      split at hr
      · cases hnext : (answers 0).redirect? with
        | none =>
            rw [hnext] at hr
            rw [List.mem_singleton.mp hr]
            exact h
        | some next =>
            rw [hnext] at hr
            rcases List.mem_cons.mp hr with rfl | hr
            · exact h
            · refine ih ?_ r hr
              split
              · rename_i hsame
                exact h.imp_right fun ⟨hhome, heq⟩ => ⟨hsame.1.symm.trans hhome, heq⟩
              · rcases h with rfl | ⟨-, rfl⟩
                · exact .inl kept_kept
                · exact .inl rfl
      · exact absurd hr List.not_mem_nil

theorem exchange_elsewhere {home : Option String} (h : Reachable authority url) (hhome : (authority url).host = home) :
    ((client.exchange authority left url headers answers).1.filter fun r => (authority r.url).host ≠ home) =
      ((followed authority left answers).filter fun u => (authority u).host ≠ home).map (⟨·, client.kept headers⟩) := by
  have hurls : (client.exchange authority left url headers answers).1.map Request.url = _ := exchange_urls h
  have hheaders : ∀ r ∈ (client.exchange authority left url headers answers).1,
      r.headers = client.kept headers ∨ (authority r.url).host = home ∧ r.headers = headers :=
    exchange_headers (.inr ⟨hhome, rfl⟩)
  revert hurls hheaders
  generalize (client.exchange authority left url headers answers).1 = requests
  intro hurls hheaders
  have hhead : (followed authority left answers).filter (fun u => (authority u).host ≠ home) =
      (requests.map Request.url).filter fun u => (authority u).host ≠ home := by
    rw [hurls, List.filter_cons_of_neg (by simpa using hhome)]
  rw [hhead, List.filter_map, List.map_map]
  refine (List.map_id _).symm.trans (List.map_congr_left fun r hr => ?_)
  obtain ⟨hr, haway⟩ := List.mem_filter.mp hr
  rcases hheaders r hr with heq | ⟨hat, -⟩
  · exact congrArg (Request.mk r.url) heq
  · exact absurd hat (by simpa using haway)

end Client

end Catapulte.Http
