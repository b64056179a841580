import Catapulte.Sql.Like
import Catapulte.Storage.Query

namespace Catapulte

/-- `->>`: a text comes without its quotes, and the null of JSON is no value. -/
def Json.arrowText (render : Json → String) (name : String) : Json → Option String
  | .object members =>
      match members.lookup name with
      | some (.string s) => some s
      | some .null | none => none
      | some j => some (render j)
  | _ => none

/-- `->`. -/
def Json.arrow (name : String) : Json → Option Json
  | .object members => members.lookup name
  | _ => none

def Json.members : Json → Option (List (String × Json))
  | .object members => some members
  | _ => none

namespace PostgresAdapter

/-- The operators of a database whose locale folds letters by `fold`, and which writes JSON
by `render`. A column `recipients` that is no array would be an error of the query, and a text
with a NUL cannot be sent. -/
def engine (fold : Char → Char) (render : Json → String) : SqlEngine where
  recipientLike recipients text := match recipients with
    | .array items => items.any fun item => ((item.arrowText render "address").map fun address =>
        Sql.accepts (Sql.sameUnder fold) (Sql.tokens (some '\\') (Sql.within text.toList)) address.toList).getD false
    | _ => false
  refuses text := text.toList.contains '\x00'
  tooComplex _ _ := false
  templateNamed body name := (body.arrow "source").bind (Json.arrowText render "kind") = some "mjml_named" ∧
    (body.arrow "source").bind (Json.arrowText render "name") = some name

end PostgresAdapter

namespace EmailStore

variable {store : EmailStore} {engine : SqlEngine} {params : ListEmailsParams} {records : List EmailRecord} {id : EmailId}

theorem mem_listing (hdecodes : store.Decodes) (h : store.Listing engine params records) :
    (∃ record ∈ records, record.id = id) ↔ ∃ email ∈ store.emails, email.id = id ∧ store.matching engine params email = true := by
  rw [listing_eq hdecodes h]
  constructor
  · rintro ⟨record, hrecord, rfl⟩
    obtain ⟨email, hemail, rfl⟩ := List.mem_map.mp hrecord
    obtain ⟨hstored, hmatching⟩ := mem_of_mem_ordered hemail
    exact ⟨email, hstored, rfl, hmatching⟩
  · rintro ⟨email, hemail, rfl, hmatching⟩
    exact ⟨_, List.mem_map_of_mem (ordered_spec.perm.mem_iff.mpr (List.mem_filter.mpr ⟨hemail, hmatching⟩)), rfl⟩

theorem exists_listing (hdecodes : store.Decodes) (htakes : engine.Takes params) (hlimit : params.limit = store.emails.length) :
    ∃ records, store.Listing engine params records := by
  let page := (((store.ordered engine params).drop 0).take params.limit).map store.record
  refine ⟨[page].flatten, [page], List.cons_ne_nil _ _, fun k records hk => ?_, ?_, rfl⟩
  · cases k with
    | zero =>
        obtain rfl : page = records := Option.some.inj hk
        have htakes' : engine.Takes { params with offset := 0 } := ⟨htakes.taken, htakes.simple⟩
        rw [Nat.zero_mul]
        exact (lists_iff hdecodes htakes').mpr rfl
    | succ k => cases hk
  · rw [List.length_singleton, Nat.one_mul, hlimit]
    exact List.length_filter_le _ _

end EmailStore

namespace EmailStore

variable {engine : SqlEngine} {finds : String → List Char → Bool} {recipient : String}

def single (email : StoredEmail) : EmailStore := ⟨[email], [], List.nodup_singleton _, List.nodup_nil⟩

end EmailStore

section Templates

variable {parseUrl : String → Option Url} {body : Json} {t : String}

def DecodesToNamed (parseUrl : String → Option Url) (body : Json) (t : String) : Prop :=
  ∃ deser, EnvelopeBodyDtoDeser.deserialize body = some deser ∧ deser.split.1.tryToBodySource parseUrl = .ok (.mjml (.named t))

/-- The list for a template has the emails with the body just if the body decodes to it, beside
what else is asked for. -/
def TemplateSearch (parseUrl : String → Option Url) (engine : SqlEngine) (body : Json) : Prop :=
  ∀ (store : EmailStore), store.Decodes → ∀ email ∈ store.emails, email.body = body → ∀ params t records,
    params.template = some t → store.Listing engine params records → ((∃ record ∈ records, record.id = email.id) ↔
      DecodesToNamed parseUrl body t ∧ store.matching engine { params with template := none } email = true)

/-- The search agrees with the decoder, and still does so after `set_attachments`. -/
structure AgreesWithDecoder (parseUrl : String → Option Url) (engine : SqlEngine) (body : Json) : Prop where
  stored : TemplateSearch parseUrl engine body
  rewritten : ∀ (table : EmailTable) fails id attachments table' row, (∀ a ∈ attachments, a.sizeBytes < 2 ^ 64) →
    table.find id = some row → row.body = body → table.setAttachments fails id attachments = (table', .ok ()) →
    ∀ row' ∈ table', row'.id = id → TemplateSearch parseUrl engine row'.body ∧
      ∀ t, DecodesToNamed parseUrl row'.body t ↔ DecodesToNamed parseUrl body t

/-- The `source` of an object that is an object itself. -/
def innerSource (body : Json) : Option (List (String × Json)) := (body.arrow "source").bind Json.members

/-- The two shapes of a stored body: an object with the body under `source`, and the bare body. -/
inductive Shape (body : Json) : Prop
  | wrapped (source : List (String × Json)) (dto : BodySourceDto) (attachments : List AttachmentRefDto)
      (inner : innerSource body = some source) (decoded : EnvelopeBodyDtoDeser.deserialize body = some (.withAttachments dto attachments))
  | bare (members : List (String × Json)) (dto : BodySourceDto) (object : body = .object members)
      (inner : innerSource body = none) (decoded : EnvelopeBodyDtoDeser.deserialize body = some (.legacy dto))

/-- The bare body of a named template. -/
def BareNamed (body : Json) : Prop := innerSource body = none ∧ body.arrow "kind" = some (.string "mjml_named")

theorem tryToBodySource_named {dto : BodySourceDto} :
    dto.tryToBodySource parseUrl = .ok (.mjml (.named t)) ↔ dto = .mjmlNamed t := by
  cases dto with
  | plain text html =>
      rw [BodySourceDto.tryToBodySource]
      split <;> simp
  | mjmlInline source => simp [BodySourceDto.tryToBodySource]
  | mjmlNamed name => simp [BodySourceDto.tryToBodySource]
  | mjmlRemote url =>
      rw [BodySourceDto.tryToBodySource]
      split <;> simp

theorem decodesToNamed_iff {deser : EnvelopeBodyDtoDeser} (h : EnvelopeBodyDtoDeser.deserialize body = some deser) :
    DecodesToNamed parseUrl body t ↔ deser.split.1 = .mjmlNamed t := by
  rw [DecodesToNamed, h]
  simp only [Option.some.injEq, exists_eq_left', tryToBodySource_named]

theorem eq_string_of_asString {j : Json} {s : String} (h : j.asString = some s) : j = .string s := by
  cases j <;> cases h
  rfl

theorem deserialize_object {members : List (String × Json)} {dto : BodySourceDto}
    (h : BodySourceDto.deserialize (.object members) = some dto) : ∃ kind, members.lookup "kind" = some (.string kind) ∧
      ((∃ name, kind = "mjml_named" ∧ members.lookup "name" = some (.string name) ∧ dto = .mjmlNamed name) ∨
        (kind ≠ "mjml_named" ∧ ∀ name, dto ≠ .mjmlNamed name)) := by
  simp only [BodySourceDto.deserialize, Json.tagged, Option.bind_eq_bind, Option.bind_eq_some_iff, Option.map_eq_some_iff] at h
  obtain ⟨⟨kind, fields⟩, ⟨_, ⟨j, hkind, hj⟩, hpair⟩, h⟩ := h
  cases hpair
  refine ⟨kind, by rw [hkind, eq_string_of_asString hj], ?_⟩
  split at h <;> rename_i hvariant
  · obtain rfl : kind = "plain" := hvariant
    simp only [Option.bind_eq_some_iff, Option.pure_def, Option.some.injEq] at h
    obtain ⟨_, -, _, -, _, -, rfl⟩ := h
    exact .inr ⟨by decide, fun name h => (by cases h)⟩
  · obtain rfl : kind = "mjml_inline" := hvariant
    simp only [Option.bind_eq_some_iff, Option.map_eq_map, Option.map_eq_some_iff] at h
    obtain ⟨_, -, _, -, rfl⟩ := h
    exact .inr ⟨by decide, fun name h => (by cases h)⟩
  · simp only [Option.bind_eq_some_iff, Option.map_eq_map, Option.map_eq_some_iff] at h
    obtain ⟨fields, hfields, name, hname, rfl⟩ := h
    cases hfields
    obtain ⟨j, hlookup, hj⟩ := Option.bind_eq_some_iff.mp hname
    exact .inl ⟨name, hvariant, hlookup.trans (congrArg some (eq_string_of_asString hj)), rfl⟩
  · obtain rfl : kind = "mjml_remote" := hvariant
    simp only [Option.bind_eq_some_iff, Option.map_eq_map, Option.map_eq_some_iff] at h
    obtain ⟨_, -, _, -, rfl⟩ := h
    exact .inr ⟨by decide, fun name h => (by cases h)⟩
  · cases h

/-- The query of the engine reads the template of a body from the object under `source`. -/
structure ReadsSource (engine : SqlEngine) : Prop where
  absent : ∀ body t, innerSource body = none → engine.templateNamed body t = false
  present : ∀ body t source dto, innerSource body = some source → BodySourceDto.deserialize (.object source) = some dto →
    (engine.templateNamed body t = true ↔ dto = .mjmlNamed t)

theorem innerSource_eq_some {source : List (String × Json)} : innerSource body = some source ↔
    ∃ members, body = .object members ∧ members.lookup "source" = some (.object source) := by
  rw [innerSource]
  cases body with
  | object members =>
      simp only [Json.arrow, Json.object.injEq, exists_eq_left']
      cases members.lookup "source" with
      | none => simp
      | some j => cases j <;> simp [Json.members]
  | _ => simp [Json.arrow]

theorem innerSource_eq_none {members : List (String × Json)} (h : innerSource (.object members) = none) {j : Json}
    (hj : members.lookup "source" = some j) : ∀ source, j ≠ .object source := by
  rintro source rfl
  rw [innerSource_eq_some.mpr ⟨members, rfl, hj⟩] at h
  cases h

theorem SqliteAdapter.readsSource : ReadsSource engine where
  absent body t h := by
    cases body with
    | object members =>
        cases hj : members.lookup "source" with
        | none => simp [engine, hj]
        | some j =>
            have hne := innerSource_eq_none h hj
            cases j with
            | object source => exact absurd rfl (hne source)
            | _ => simp [engine, hj, Json.text]
    | _ => rfl
  present body t source dto h hdto := by
    obtain ⟨members, rfl, hsource⟩ := innerSource_eq_some.mp h
    obtain ⟨kind, hkind, ⟨name, rfl, hname, rfl⟩ | ⟨hne, hother⟩⟩ := deserialize_object hdto
    · simp [engine, hsource, Json.text, hkind, hname]
    · simp [engine, hsource, Json.text, hkind, hne, hother]

theorem PostgresAdapter.readsSource (fold : Char → Char) (render : Json → String) : ReadsSource (engine fold render) where
  absent body t h := by
    cases body with
    | object members =>
        cases hj : members.lookup "source" with
        | none => simp [engine, hj, Json.arrow]
        | some j =>
            have hne := innerSource_eq_none h hj
            cases j with
            | object source => exact absurd rfl (hne source)
            | _ => simp [engine, hj, Json.arrow, Json.arrowText]
    | _ => rfl
  present body t source dto h hdto := by
    obtain ⟨members, rfl, hsource⟩ := innerSource_eq_some.mp h
    obtain ⟨kind, hkind, ⟨name, rfl, hname, rfl⟩ | ⟨hne, hother⟩⟩ := deserialize_object hdto
    · simp [engine, hsource, Json.arrow, Json.arrowText, hkind, hname]
    · simp [engine, hsource, Json.arrow, Json.arrowText, hkind, hne, hother]

variable {engine : SqlEngine}

theorem matching_template {store : EmailStore} {params : ListEmailsParams} (h : params.template = some t) {email : StoredEmail} :
    store.matching engine params email = true ↔ engine.templateNamed email.body t = true ∧
      store.matching engine { params with template := none } email = true := by
  simp only [EmailStore.matching, h, Option.all_some, Option.all_none, Bool.and_eq_true]
  tauto

def emailOf (body : Json) : StoredEmail := ⟨⟨⟨1⟩, none, none, none, "bob@example.org", .array [], body, .object []⟩, 0⟩

theorem templateSearch_iff : TemplateSearch parseUrl engine body ↔
    ∀ t, engine.refuses t = false → (engine.templateNamed body t = true ↔ DecodesToNamed parseUrl body t) := by
  constructor
  · intro h t htaken
    have hdecodes : (EmailStore.single (emailOf body)).Decodes := List.forall_mem_singleton.mpr ⟨[], rfl⟩
    let params : ListEmailsParams := ⟨none, none, none, none, some t, none, 1, 0⟩
    have hparams : (EmailStore.single (emailOf body)).matching engine { params with template := none } (emailOf body) = true := rfl
    have htakes : engine.Takes params := by
      refine ⟨?_, fun row => ?_⟩
      · rintro (⟨text, hnone, -⟩ | ⟨name, hname, hrefused⟩)
        · cases hnone
        · cases hname
          cases htaken.symm.trans hrefused
      · rintro ⟨text, hnone, -⟩
        cases hnone
    obtain ⟨records, hlisting⟩ : ∃ records, (EmailStore.single (emailOf body)).Listing engine params records :=
      EmailStore.exists_listing hdecodes htakes rfl
    have hlist := h _ hdecodes (emailOf body) List.mem_cons_self rfl params t records rfl hlisting
    rw [EmailStore.mem_listing hdecodes hlisting, hparams, and_iff_left rfl] at hlist
    rw [← hlist, EmailStore.single]
    simp only [List.mem_singleton, exists_eq_left, true_and]
    rw [← EmailStore.single, matching_template rfl, hparams, and_iff_left rfl]
    rfl
  · intro h store hdecodes email hemail hbody params t records htemplate hlisting
    have htaken : engine.refuses t = false :=
      Bool.eq_false_iff.mpr fun hrefused => hlisting.taken (.inr ⟨t, htemplate, hrefused⟩)
    rw [EmailStore.mem_listing hdecodes hlisting, ← h t htaken, ← hbody, ← matching_template htemplate]
    constructor
    · rintro ⟨email', hemail', hid, hmatching⟩
      obtain rfl := List.inj_on_of_nodup_map store.emails_unique hemail' hemail (congrArg EmailId.uuid hid)
      exact hmatching
    · intro hmatching
      exact ⟨email, hemail, rfl, hmatching⟩

theorem deserialize_cases {deser : EnvelopeBodyDtoDeser} (h : EnvelopeBodyDtoDeser.deserialize body = some deser) :
    EnvelopeBodyDtoDeser.withAttachments? body = some deser ∨
      ∃ dto, BodySourceDto.deserialize body = some dto ∧ deser = .legacy dto := by
  rw [EnvelopeBodyDtoDeser.deserialize] at h
  cases hwrapped : EnvelopeBodyDtoDeser.withAttachments? body with
  | some deser' =>
      rw [hwrapped] at h
      exact .inl h
  | none =>
      rw [hwrapped] at h
      obtain ⟨dto, hdto, rfl⟩ := Option.map_eq_some_iff.mp h
      exact .inr ⟨dto, hdto, rfl⟩

theorem withAttachments_inner {source : List (String × Json)} (hinner : innerSource body = some source) {deser : EnvelopeBodyDtoDeser}
    (h : EnvelopeBodyDtoDeser.withAttachments? body = some deser) :
    ∃ dto attachments, deser = .withAttachments dto attachments ∧ BodySourceDto.deserialize (.object source) = some dto := by
  obtain ⟨members, rfl, hsource⟩ := innerSource_eq_some.mp hinner
  simp only [EnvelopeBodyDtoDeser.withAttachments?, Json.variantFields, Option.bind_eq_bind, Option.bind_some, Option.bind_eq_some_iff,
    Option.pure_def, Option.some.injEq] at h
  obtain ⟨dto, hdto, attachments, -, rfl⟩ := h
  obtain ⟨j, hj, hdto⟩ := Option.bind_eq_some_iff.mp hdto
  obtain rfl : j = .object source := Option.some.inj (hj.symm.trans hsource)
  exact ⟨dto, attachments, rfl, hdto⟩

theorem deserialize_wrapped {source : List (String × Json)} (hinner : innerSource body = some source) {dto : BodySourceDto}
    {attachments : List AttachmentRefDto} (h : EnvelopeBodyDtoDeser.deserialize body = some (.withAttachments dto attachments)) :
    BodySourceDto.deserialize (.object source) = some dto := by
  obtain hwrapped | ⟨dto', -, hlegacy⟩ := deserialize_cases h
  · obtain ⟨dto', attachments', heq, hdto⟩ := withAttachments_inner hinner hwrapped
    cases heq
    exact hdto
  · cases hlegacy

theorem deserialize_bare {dto : BodySourceDto} (h : EnvelopeBodyDtoDeser.deserialize body = some (.legacy dto)) :
    BodySourceDto.deserialize body = some dto := by
  obtain hwrapped | ⟨dto', hdto, hlegacy⟩ := deserialize_cases h
  · simp only [EnvelopeBodyDtoDeser.withAttachments?, Option.bind_eq_bind, Option.bind_eq_some_iff, Option.pure_def,
      Option.some.injEq] at hwrapped
    obtain ⟨_, -, _, -, _, -, heq⟩ := hwrapped
    cases heq
  · cases hlegacy
    exact hdto

theorem templateSearch_wrapped (hengine : ReadsSource engine) {source : List (String × Json)} (hinner : innerSource body = some source)
    {dto : BodySourceDto} {attachments : List AttachmentRefDto}
    (h : EnvelopeBodyDtoDeser.deserialize body = some (.withAttachments dto attachments)) : TemplateSearch parseUrl engine body := by
  refine templateSearch_iff.mpr fun t _ => ?_
  rw [hengine.present body t source dto hinner (deserialize_wrapped hinner h), decodesToNamed_iff h]
  rfl

theorem templateSearch_bare (hengine : ReadsSource engine) {members : List (String × Json)} (hobject : body = .object members)
    (hinner : innerSource body = none) {dto : BodySourceDto} (h : EnvelopeBodyDtoDeser.deserialize body = some (.legacy dto)) :
    (¬BareNamed body → TemplateSearch parseUrl engine body) ∧
      ((∀ t, engine.refuses t = false) → TemplateSearch parseUrl engine body → ¬BareNamed body) := by
  obtain ⟨kind, hkind, hrest⟩ := deserialize_object (hobject ▸ deserialize_bare h)
  have hbare : BareNamed body ↔ kind = "mjml_named" := by
    rw [BareNamed, hobject, Json.arrow, hkind, Option.some.injEq, Json.string.injEq, ← hobject]
    exact and_iff_right hinner
  rw [templateSearch_iff, hbare]
  simp only [hengine.absent body _ hinner, decodesToNamed_iff h, Bool.false_eq_true, false_iff]
  obtain ⟨name, rfl, -, rfl⟩ | ⟨hne, hother⟩ := hrest
  · exact ⟨fun hne => absurd rfl hne, fun hall h => absurd rfl (h name (hall name))⟩
  · exact ⟨fun _ t _ => hother t, fun _ _ => hne⟩

theorem body_of_setBody {table : EmailTable} {id : EmailId} {row : EmailColumns} (h : row ∈ table.setBody id body) (hid : row.id = id) :
    row.body = body := by
  obtain ⟨old, -, rfl⟩ := List.mem_map.mp h
  by_cases hold : old.id = id
  · rw [if_pos hold]
  · rw [if_neg hold] at hid
    exact absurd hid hold

theorem setAttachments_written {table table' : EmailTable} {fails : SetAttachmentsStatement → Bool} {id : EmailId}
    {attachments : List AttachmentRef} {row : EmailColumns} (hrow : table.find id = some row)
    (h : table.setAttachments fails id attachments = (table', .ok ())) :
    ∃ deser, EnvelopeBodyDtoDeser.deserialize row.body = some deser ∧ table' = table.setBody id
      (EnvelopeBodyDto.serialize ⟨deser.split.1, attachments.map AttachmentRefDto.ofAttachmentRef⟩) := by
  simp only [EmailTable.setAttachments, hrow] at h
  split at h
  · cases h
  split at h
  · cases h
  split at h
  · cases h
  split at h
  · cases h
  split at h
  · cases h
  split at h <;> cases h
  exact ⟨_, ‹_›, rfl⟩

theorem innerSource_serialize (dto : EnvelopeBodyDto) : ∃ source, innerSource dto.serialize = some source := by
  obtain ⟨source, attachments⟩ := dto
  cases source <;> exact ⟨_, rfl⟩

theorem rewritten (hengine : ReadsSource engine) {table table' : EmailTable} {fails : SetAttachmentsStatement → Bool} {id : EmailId}
    {attachments : List AttachmentRef} {row row' : EmailColumns} (hfits : ∀ a ∈ attachments, a.sizeBytes < 2 ^ 64)
    (hrow : table.find id = some row) (hset : table.setAttachments fails id attachments = (table', .ok ()))
    (hrow' : row' ∈ table') (hid : row'.id = id) : TemplateSearch parseUrl engine row'.body ∧
      ∀ t, DecodesToNamed parseUrl row'.body t ↔ DecodesToNamed parseUrl row.body t := by
  obtain ⟨deser, hdeser, rfl⟩ := setAttachments_written hrow hset
  rw [body_of_setBody hrow' hid]
  have hdecoded : EnvelopeBodyDtoDeser.deserialize
      (EnvelopeBodyDto.serialize ⟨deser.split.1, attachments.map AttachmentRefDto.ofAttachmentRef⟩) = some _ :=
    EnvelopeBodyDtoDeser.deserialize_serialize (fits_ofAttachmentRef hfits)
  obtain ⟨source, hinner⟩ := innerSource_serialize ⟨deser.split.1, attachments.map AttachmentRefDto.ofAttachmentRef⟩
  refine ⟨templateSearch_wrapped hengine hinner hdecoded, fun t => ?_⟩
  rw [decodesToNamed_iff hdecoded, decodesToNamed_iff hdeser]
  rfl

theorem agreesWithDecoder (hengine : ReadsSource engine) (hshape : Shape body) :
    (¬BareNamed body → AgreesWithDecoder parseUrl engine body) ∧
      ((∀ t, engine.refuses t = false) → AgreesWithDecoder parseUrl engine body → ¬BareNamed body) := by
  have hrewritten (h : TemplateSearch parseUrl engine body) : AgreesWithDecoder parseUrl engine body :=
    ⟨h, fun table fails id attachments table' row hfits hrow hbody hset row' hrow' hid =>
      hbody ▸ rewritten hengine hfits hrow hset hrow' hid⟩
  cases hshape with
  | wrapped source dto attachments hinner h =>
      refine ⟨fun _ => hrewritten (templateSearch_wrapped hengine hinner h), fun _ _ hbare => ?_⟩
      rw [hbare.1] at hinner
      cases hinner
  | bare members dto hobject hinner h =>
      obtain ⟨hsearch, hnot⟩ := templateSearch_bare hengine hobject hinner h
      exact ⟨fun hbare => hrewritten (hsearch hbare), fun hall hagrees => hnot hall hagrees.stored⟩

/-- In both databases the filter agrees with the decoder for every row but the named templates
that are still stored bare. -/
theorem templateFilter_iff (parseUrl : String → Option Url) (fold : Char → Char) (render : Json → String) (hshape : Shape body) :
    AgreesWithDecoder parseUrl SqliteAdapter.engine body ∧ AgreesWithDecoder parseUrl (PostgresAdapter.engine fold render) body ↔
      ¬BareNamed body := by
  constructor
  · rintro ⟨hsqlite, -⟩
    exact (agreesWithDecoder SqliteAdapter.readsSource hshape).2 (fun _ => rfl) hsqlite
  · intro h
    exact ⟨(agreesWithDecoder SqliteAdapter.readsSource hshape).1 h,
      (agreesWithDecoder (PostgresAdapter.readsSource fold render) hshape).1 h⟩

def bareWelcome : Json := .object [("kind", .string "mjml_named"), ("name", .string "welcome")]

def wrappedInline : Json := .object [("source", .object [("kind", .string "mjml_inline"), ("source", .string "<mjml/>")])]

theorem templateFilter_iff_inline :
    AgreesWithDecoder (fun _ => none) SqliteAdapter.engine wrappedInline ∧
        AgreesWithDecoder (fun _ => none) (PostgresAdapter.engine Char.toLower fun _ => "") wrappedInline ↔ ¬BareNamed wrappedInline :=
  templateFilter_iff (fun _ => none) Char.toLower (fun _ => "") (.wrapped _ _ _ rfl rfl)

/-- The old row of the template `welcome` is not listed for it. -/
theorem templateFilter_bare :
    ¬(AgreesWithDecoder (fun _ => none) SqliteAdapter.engine bareWelcome ∧
      AgreesWithDecoder (fun _ => none) (PostgresAdapter.engine Char.toLower fun _ => "") bareWelcome) := by
  rintro ⟨h, -⟩
  have hdecoded := (templateSearch_iff.mp h.stored "welcome" rfl).mpr ⟨.legacy (.mjmlNamed "welcome"), rfl, rfl⟩
  rw [SqliteAdapter.readsSource.absent bareWelcome "welcome" rfl] at hdecoded
  cases hdecoded

end Templates

end Catapulte
