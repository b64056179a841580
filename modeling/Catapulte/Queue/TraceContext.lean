import Mathlib.Algebra.Ring.Nat
import Mathlib.Data.List.Perm.Lattice

namespace Catapulte.Nats

/-- The names and values of headers in the order in which they are iterated over. -/
abbrev Headers := List (String × List String)

/-- Header names are case-sensitive keys. -/
structure HeaderMap where
  entries : Headers
  nodup : (entries.map Prod.fst).Nodup

/-- The iteration order of a header map is not specified. -/
def HeaderMap.Iterates (headers : HeaderMap) (order : Headers) : Prop := order.Perm headers.entries

def eqIgnoreAsciiCase (s t : String) : Bool := s.toList.map Char.toLower == t.toList.map Char.toLower

def findHeader (name : String) (headers : Headers) : Option (String × List String) :=
  headers.find? fun header => eqIgnoreAsciiCase header.1 name

def traceparent (headers : Headers) : Option String := (findHeader "traceparent" headers).bind fun header => header.2.head?

def tracestateValues (headers : Headers) : List String := ((findHeader "tracestate" headers).map Prod.snd).getD []

def tracestate (headers : Headers) : Option String :=
  if (tracestateValues headers).isEmpty then none else some (",".intercalate (tracestateValues headers))

def pairs (traceparent tracestate : Option String) : List (String × String) :=
  traceparent.toList.map ("traceparent", ·) ++ tracestate.toList.map ("tracestate", ·)

/-- The body that the two copies of `header_map_to_pairs` have in common. -/
def headerMapToPairs (headers : Headers) : List (String × String) := pairs (traceparent headers) (tracestate headers)

/-- The copy of the queue adapter. -/
def EmailQueue.headerMapToPairs (headers : Headers) : List (String × String) := Nats.headerMapToPairs headers

/-- The copy of the inbound server. -/
def Server.headerMapToPairs (headers : Headers) : List (String × String) := Nats.headerMapToPairs headers

def spellings (name : String) (headers : Headers) : Headers := headers.filter fun header => eqIgnoreAsciiCase header.1 name

def received (name : String) (headers : Headers) : List String := (spellings name headers).flatMap Prod.snd

variable {name value : String} {headers order : Headers} {header : String × List String}

theorem findHeader_eq (name : String) (headers : Headers) : findHeader name headers = (spellings name headers).head? :=
  List.head?_filter.symm

theorem mem_received : value ∈ received name headers ↔ ∃ header ∈ spellings name headers, value ∈ header.2 := List.mem_flatMap

theorem received_perm (h : order.Perm headers) : (received name order).Perm (received name headers) :=
  (h.filter _).flatMap_right Prod.snd

theorem exists_order (h : header ∈ headers) : ∃ rest, (header :: rest).Perm headers :=
  ⟨headers.erase header, (List.perm_cons_erase h).symm⟩

theorem spellings_cons (h : header ∈ spellings name headers) (rest : Headers) :
    spellings name (header :: rest) = header :: spellings name rest :=
  List.filter_cons_of_pos (List.mem_filter.mp h).2

theorem length_intercalate {values : List String} (h : values ≠ []) :
    (",".intercalate values).length + 1 = (values.map fun value => value.length + 1).sum := by
  induction values with
  | nil => exact absurd rfl h
  | cons v values ih =>
      cases values with
      | nil => rw [String.intercalate_singleton, List.map_singleton, List.sum_singleton]
      | cons w values =>
          have hcomma : ",".length = 1 := rfl
          rw [String.intercalate_cons_cons, String.length_append, String.length_append, hcomma, List.map_cons, List.sum_cons,
            ← ih (List.cons_ne_nil w values)]
          omega

theorem eq_nil_of_intercalate {values more all : List String} (h : values ≠ []) (hall : all.Perm (values ++ more))
    (heq : ",".intercalate values = ",".intercalate all) : more = [] := by
  have hne : all ≠ [] := by
    rintro rfl
    exact h (List.append_eq_nil_iff.mp (List.nil_perm.mp hall)).1
  have hlen := length_intercalate hne
  rw [← heq, length_intercalate h, (hall.map _).sum_nat, List.map_append, List.sum_append_nat] at hlen
  cases more with
  | nil => rfl
  | cons w more =>
      rw [List.map_cons, List.sum_cons] at hlen
      omega

/-- What an iteration yields: a received value of the one header, and all the received values
of the other, each where there is one. -/
structure Carries (order : Headers) (parent state : Option String) : Prop where
  traceparent : parent.isSome ↔ received "traceparent" order ≠ []
  value : ∀ value ∈ parent, value ∈ received "traceparent" order
  tracestate : state.isSome ↔ received "tracestate" order ≠ []
  joined : ∀ value ∈ state, ∃ values, values.Perm (received "tracestate" order) ∧ value = ",".intercalate values

structure Extracts (extract : Headers → List (String × String)) (headers : HeaderMap) : Prop where
  carries : ∀ order, headers.Iterates order → ∃ parent state,
    extract order = pairs parent state ∧ Carries order parent state
  order : ∀ order, headers.Iterates order → extract order = extract headers.entries
  others : ∀ order, headers.Iterates order → extract order =
    extract (order.filter fun header => eqIgnoreAsciiCase header.1 "traceparent" || eqIgnoreAsciiCase header.1 "tracestate")

/-- The spellings of `traceparent` agree on its first value, and a `tracestate` that has a value
is spelled in one way. -/
structure Alike (headers : HeaderMap) : Prop where
  traceparent : ∀ h ∈ spellings "traceparent" headers.entries, ∀ h' ∈ spellings "traceparent" headers.entries,
    h.2.head? = h'.2.head?
  tracestate : received "tracestate" headers.entries ≠ [] → ∀ h ∈ spellings "tracestate" headers.entries,
    ∀ h' ∈ spellings "tracestate" headers.entries, h = h'

theorem pairs_inj {p p' s s' : Option String} : pairs p s = pairs p' s' ↔ p = p' ∧ s = s' := by
  refine ⟨fun h => ?_, fun h => by rw [h.1, h.2]⟩
  cases p <;> cases p' <;> cases s <;> cases s' <;> simp_all [pairs]

theorem findHeader_filter {p : String × List String → Bool} (h : ∀ header, eqIgnoreAsciiCase header.1 name = true → p header = true)
    (headers : Headers) : findHeader name (headers.filter p) = findHeader name headers := by
  rw [findHeader_eq, findHeader_eq, spellings, spellings, List.filter_filter]
  congr 2
  funext header
  cases hname : eqIgnoreAsciiCase header.1 name with
  | true => rw [h header hname]; rfl
  | false => rfl

variable {map : HeaderMap}

theorem headerMapToPairs_others (order : Headers) : headerMapToPairs order = headerMapToPairs (order.filter fun header =>
    eqIgnoreAsciiCase header.1 "traceparent" || eqIgnoreAsciiCase header.1 "tracestate") := by
  rw [headerMapToPairs, headerMapToPairs, traceparent, traceparent, tracestate, tracestate, tracestateValues, tracestateValues,
    findHeader_filter fun header h => Bool.or_eq_true_iff.mpr (.inl h),
    findHeader_filter fun header h => Bool.or_eq_true_iff.mpr (.inr h)]

theorem traceparent_cons (h : header ∈ spellings "traceparent" headers) (rest : Headers) :
    traceparent (header :: rest) = header.2.head? := by
  rw [traceparent, findHeader_eq, spellings_cons h]
  rfl

theorem tracestateValues_cons (h : header ∈ spellings "tracestate" headers) (rest : Headers) :
    tracestateValues (header :: rest) = header.2 := by
  rw [tracestateValues, findHeader_eq, spellings_cons h]
  rfl

theorem mem_of_spellings (h : header ∈ spellings name headers) : header ∈ headers := List.mem_of_mem_filter h

theorem alike_of_extracts (h : Extracts headerMapToPairs map) : Alike map where
  traceparent h₁ hmem₁ h₂ hmem₂ := by
    obtain ⟨rest₁, hperm₁⟩ := exists_order (mem_of_spellings hmem₁)
    obtain ⟨rest₂, hperm₂⟩ := exists_order (mem_of_spellings hmem₂)
    have heq := (h.order _ hperm₁).trans (h.order _ hperm₂).symm
    rw [headerMapToPairs, headerMapToPairs, pairs_inj, traceparent_cons hmem₁, traceparent_cons hmem₂] at heq
    exact heq.1
  tracestate hne h₁ hmem₁ h₂ hmem₂ := by
    have hvalues {header : String × List String} (hmem : header ∈ spellings "tracestate" map.entries) :
        ∃ rest, (header :: rest).Perm map.entries ∧ header.2 ≠ [] ∧
          (spellings "tracestate" rest).flatMap Prod.snd = [] := by
      obtain ⟨rest, hperm⟩ := exists_order (mem_of_spellings hmem)
      obtain ⟨p, s, heq, hcarries⟩ := h.carries _ hperm
      rw [headerMapToPairs, pairs_inj, tracestate, tracestateValues_cons hmem] at heq
      obtain ⟨-, rfl⟩ := heq
      have hsome := hcarries.tracestate.mpr fun hnil => hne (List.nil_perm.mp (hnil ▸ received_perm hperm))
      have hheader : header.2 ≠ [] := by
        intro hnil
        rw [hnil] at hsome
        cases hsome
      refine ⟨rest, hperm, hheader, ?_⟩
      obtain ⟨all, hall, hjoined⟩ := hcarries.joined _ (if_neg (by simpa using hheader))
      rw [received, spellings_cons hmem, List.flatMap_cons] at hall
      exact eq_nil_of_intercalate hheader hall hjoined
    obtain ⟨rest, hperm, -, hrest⟩ := hvalues hmem₁
    obtain ⟨-, -, hne₂, -⟩ := hvalues hmem₂
    obtain rfl | hmem := List.mem_cons.mp (hperm.mem_iff.mpr (mem_of_spellings hmem₂))
    · rfl
    · have hspelled : h₂ ∈ spellings "tracestate" rest := List.mem_filter.mpr ⟨hmem, (List.mem_filter.mp hmem₂).2⟩
      exact absurd (List.flatMap_eq_nil_iff.mp hrest h₂ hspelled) hne₂

theorem spellings_perm (h : map.Iterates order) : (spellings name order).Perm (spellings name map.entries) := h.filter _

theorem traceparent_eq (h : Alike map) (hmem : header ∈ spellings "traceparent" map.entries) (ho : map.Iterates order) :
    traceparent order = header.2.head? := by
  rw [traceparent, findHeader_eq]
  have hperm : (spellings "traceparent" order).Perm (spellings "traceparent" map.entries) := spellings_perm ho
  cases hs : spellings "traceparent" order with
  | nil =>
      rw [hs, List.nil_perm] at hperm
      rw [hperm] at hmem
      exact absurd hmem List.not_mem_nil
  | cons first rest => exact h.traceparent _ (hperm.mem_iff.mp (hs ▸ List.mem_cons_self)) _ hmem

theorem spellings_eq (h : Alike map) (hne : received "tracestate" map.entries ≠ []) :
    ∃ header, ∀ order, map.Iterates order → spellings "tracestate" order = [header] := by
  have hnodup : (spellings "tracestate" map.entries).Nodup := (List.Nodup.of_map _ map.nodup).filter _
  have hsame := h.tracestate hne
  cases hs : spellings "tracestate" map.entries with
  | nil => exact absurd (by rw [received, hs]; rfl) hne
  | cons header rest =>
      have hrest : rest = [] := by
        rw [hs] at hnodup hsame
        refine List.eq_nil_iff_forall_not_mem.mpr fun other hother => (List.nodup_cons.mp hnodup).1 ?_
        rwa [hsame header List.mem_cons_self other (List.mem_cons_of_mem header hother)]
      refine ⟨header, fun order ho => List.perm_singleton.mp ?_⟩
      exact hrest ▸ hs ▸ spellings_perm ho

theorem tracestateValues_eq (h : Alike map) (ho : map.Iterates order) :
    tracestateValues order = received "tracestate" map.entries := by
  by_cases hne : received "tracestate" map.entries = []
  · rw [hne, tracestateValues, findHeader_eq]
    cases hfirst : (spellings "tracestate" order).head? with
    | none => rfl
    | some header =>
        have hmem := (spellings_perm ho).mem_iff.mp (List.mem_of_head? hfirst)
        exact List.flatMap_eq_nil_iff.mp hne header hmem
  · obtain ⟨header, hheader⟩ := spellings_eq h hne
    rw [tracestateValues, findHeader_eq, hheader order ho, received, hheader _ (.refl _), List.flatMap_cons, List.flatMap_nil,
      List.append_nil]
    rfl

theorem mem_received_of_traceparent (h : traceparent order = some value) : value ∈ received "traceparent" order := by
  rw [traceparent, findHeader_eq] at h
  obtain ⟨header, hheader, hhead⟩ := Option.bind_eq_some_iff.mp h
  exact mem_received.mpr ⟨header, List.mem_of_head? hheader, List.mem_of_head? hhead⟩

theorem carries (h : Alike map) (ho : map.Iterates order) : Carries order (traceparent order) (tracestate order) where
  traceparent := by
    constructor
    · intro hsome
      obtain ⟨value, hvalue⟩ := Option.isSome_iff_exists.mp hsome
      exact List.ne_nil_of_mem (mem_received_of_traceparent hvalue)
    · intro hne
      obtain ⟨value, hvalue⟩ := List.exists_mem_of_ne_nil _ hne
      obtain ⟨header, hmem, hvalue⟩ := mem_received.mp hvalue
      rw [traceparent_eq h ((spellings_perm ho).mem_iff.mp hmem) ho, List.isSome_head?]
      exact List.ne_nil_of_mem hvalue
  value _ hvalue := mem_received_of_traceparent hvalue
  tracestate := by
    have hnil : received "tracestate" order = [] ↔ received "tracestate" map.entries = [] :=
      ⟨fun h => List.nil_perm.mp (h ▸ received_perm ho), fun h => List.perm_nil.mp (h ▸ received_perm ho)⟩
    rw [tracestate, tracestateValues_eq h ho, Ne, hnil, ← List.isEmpty_iff]
    split
    · exact iff_of_false (fun h => (by cases h)) (not_not_intro ‹_›)
    · exact iff_of_true rfl ‹_›
  joined value hvalue := by
    rw [tracestate, tracestateValues_eq h ho] at hvalue
    split at hvalue
    · cases hvalue
    · cases hvalue
      exact ⟨_, (received_perm ho).symm, rfl⟩

theorem extracts_of_alike (h : Alike map) : Extracts headerMapToPairs map where
  carries order ho := ⟨_, _, rfl, carries h ho⟩
  order order ho := by
    have hparent : traceparent order = traceparent map.entries := by
      cases hs : spellings "traceparent" map.entries with
      | nil =>
          have horder : spellings "traceparent" order = [] := List.perm_nil.mp (hs ▸ spellings_perm ho)
          rw [traceparent, traceparent, findHeader_eq, findHeader_eq, hs, horder]
      | cons header rest =>
          have hmem : header ∈ spellings "traceparent" map.entries := hs ▸ List.mem_cons_self
          rw [traceparent_eq h hmem ho, traceparent_eq h hmem (.refl _)]
    rw [headerMapToPairs, headerMapToPairs, hparent, tracestate, tracestate, tracestateValues_eq h ho,
      tracestateValues_eq h (.refl _)]
  others order _ := headerMapToPairs_others order

/-- Both copies ignore the case of the names and the order of the entries just for the maps
whose spellings agree. -/
theorem headerMapToPairs_extracts_iff (map : HeaderMap) :
    Extracts EmailQueue.headerMapToPairs map ∧ Extracts Server.headerMapToPairs map ↔ Alike map :=
  ⟨fun h => alike_of_extracts h.1, fun h => ⟨extracts_of_alike h, extracts_of_alike h⟩⟩

/-- A producer and a proxy that spell the name in two ways. -/
def twoSpellings : HeaderMap := ⟨[("tracestate", ["rojo=1"]), ("Tracestate", ["congo=2"])], by decide⟩

/-- One of the two values is lost, and the order decides which. -/
theorem headerMapToPairs_not_extracts :
    ¬(Extracts EmailQueue.headerMapToPairs twoSpellings ∧ Extracts Server.headerMapToPairs twoSpellings) := by
  intro h
  have horder := h.1.order [("Tracestate", ["congo=2"]), ("tracestate", ["rojo=1"])] (.swap _ _ _)
  exact absurd horder (by decide)

end Catapulte.Nats
