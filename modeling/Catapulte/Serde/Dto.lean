import Catapulte.Domain.Entity

namespace Catapulte

/-! The wire types that the queue and the two databases share. -/

structure BlobRefDto where
  backend : String
  key : String

structure AttachmentRefDto where
  filename : String
  contentType : String
  sizeBytes : Nat
  blob : BlobRefDto

inductive BodySourceDto
  | plain (text html : Option String)
  | mjmlInline (source : String)
  | mjmlNamed (name : String)
  | mjmlRemote (url : String)

inductive RecipientKindDto
  | to
  | cc
  | bcc

structure RecipientDto where
  kind : RecipientKindDto
  address : String

namespace BlobRefDto

def serialize (b : BlobRefDto) : Json := .object [("backend", .string b.backend), ("key", .string b.key)]

def deserialize (j : Json) : Option BlobRefDto := do
  let f ← j.fields 2
  let backend ← f.required 0 "backend" Json.asString
  let key ← f.required 1 "key" Json.asString
  pure ⟨backend, key⟩

@[simp] theorem deserialize_serialize (b : BlobRefDto) : deserialize b.serialize = some b := rfl

end BlobRefDto

namespace AttachmentRefDto

def serialize (a : AttachmentRefDto) : Json :=
  .object [("filename", .string a.filename), ("content_type", .string a.contentType),
    ("size_bytes", .number a.sizeBytes), ("blob", a.blob.serialize)]

def deserialize (j : Json) : Option AttachmentRefDto := do
  let f ← j.fields 4
  let filename ← f.required 0 "filename" Json.asString
  let contentType ← f.required 1 "content_type" Json.asString
  let sizeBytes ← f.required 2 "size_bytes" Json.asU64
  let blob ← f.required 3 "blob" BlobRefDto.deserialize
  pure ⟨filename, contentType, sizeBytes, blob⟩

/-- `size_bytes` is a `u64`. -/
def Fits (a : AttachmentRefDto) : Prop := a.sizeBytes < 2 ^ 64

theorem deserialize_serialize {a : AttachmentRefDto} (h : a.Fits) : deserialize a.serialize = some a := by
  have hsize : deserialize a.serialize = (Json.number a.sizeBytes).asU64.bind fun sizeBytes =>
      some ⟨a.filename, a.contentType, sizeBytes, a.blob⟩ := rfl
  rw [hsize, Json.asU64_number h]
  rfl

theorem fits_of_deserialize {j : Json} {a : AttachmentRefDto} (h : deserialize j = some a) : a.Fits := by
  simp only [deserialize, Option.bind_eq_bind, Option.bind_eq_some_iff] at h
  obtain ⟨f, -, filename, -, contentType, -, sizeBytes, hsize, blob, -, h⟩ := h
  cases h
  obtain ⟨j, -, hj⟩ := Option.bind_eq_some_iff.mp hsize
  exact Json.lt_of_asU64 hj

end AttachmentRefDto

namespace BodySourceDto

def serialize : BodySourceDto → Json
  | plain text html =>
      .object [("kind", .string "plain"), ("text", .optString text), ("html", .optString html)]
  | mjmlInline source => .object [("kind", .string "mjml_inline"), ("source", .string source)]
  | mjmlNamed name => .object [("kind", .string "mjml_named"), ("name", .string name)]
  | mjmlRemote url => .object [("kind", .string "mjml_remote"), ("url", .string url)]

def deserialize (j : Json) : Option BodySourceDto := do
  let (kind, f) ← j.tagged "kind"
  match kind with
  | "plain" =>
      let f ← f.within 2
      let text ← f.optional 0 "text" Json.asString
      let html ← f.optional 1 "html" Json.asString
      pure (plain text html)
  | "mjml_inline" =>
      let f ← f.within 1
      mjmlInline <$> f.required 0 "source" Json.asString
  | "mjml_named" =>
      let f ← f.within 1
      mjmlNamed <$> f.required 0 "name" Json.asString
  | "mjml_remote" =>
      let f ← f.within 1
      mjmlRemote <$> f.required 0 "url" Json.asString
  | _ => none

@[simp] theorem deserialize_serialize (b : BodySourceDto) : deserialize b.serialize = some b := by
  cases b with
  | plain text html => cases text <;> cases html <;> rfl
  | mjmlInline | mjmlNamed | mjmlRemote => rfl

end BodySourceDto

namespace RecipientKindDto

def serialize : RecipientKindDto → Json
  | .to => .string "to"
  | .cc => .string "cc"
  | .bcc => .string "bcc"

def deserialize (j : Json) : Option RecipientKindDto :=
  match j.unitVariant with
  | some "to" => some .to
  | some "cc" => some .cc
  | some "bcc" => some .bcc
  | _ => none

end RecipientKindDto

namespace RecipientDto

def serialize (r : RecipientDto) : Json :=
  .object [("kind", r.kind.serialize), ("address", .string r.address)]

def deserialize (j : Json) : Option RecipientDto := do
  let f ← j.fields 2
  let kind ← f.required 0 "kind" RecipientKindDto.deserialize
  let address ← f.required 1 "address" Json.asString
  pure ⟨kind, address⟩

@[simp] theorem deserialize_serialize (r : RecipientDto) : deserialize r.serialize = some r := by
  obtain ⟨kind, address⟩ := r
  cases kind <;> rfl

end RecipientDto

def AttachmentRefDto.ofAttachmentRef (a : AttachmentRef) : AttachmentRefDto :=
  ⟨a.filename, a.contentType, a.sizeBytes, ⟨a.blob.backend, a.blob.key⟩⟩

def AttachmentRefDto.toAttachmentRef (dto : AttachmentRefDto) : AttachmentRef :=
  ⟨dto.filename, dto.contentType, dto.sizeBytes, ⟨dto.blob.backend, dto.blob.key⟩⟩

def RecipientKindDto.ofRecipientKind : RecipientKind → RecipientKindDto
  | .to => .to
  | .cc => .cc
  | .bcc => .bcc

def RecipientKindDto.toRecipientKind : RecipientKindDto → RecipientKind
  | .to => .to
  | .cc => .cc
  | .bcc => .bcc

def recipientsToDto (recipients : List (RecipientKind × String)) : List RecipientDto :=
  recipients.map fun (k, a) => ⟨.ofRecipientKind k, a⟩

def recipientsFromDto (dtos : List RecipientDto) : List (RecipientKind × String) :=
  dtos.map fun d => (d.kind.toRecipientKind, d.address)

def BodySourceDto.ofBodySource : BodySource → BodySourceDto
  | .plain p => plain p.text p.html
  | .mjml (.inline s) => mjmlInline s
  | .mjml (.named n) => mjmlNamed n
  | .mjml (.remote u) => mjmlRemote u.text

/-- `parseUrl` is the parser of the `url` crate. -/
def BodySourceDto.tryToBodySource (parseUrl : String → Option Url) : BodySourceDto → Except String BodySource
  | plain text html =>
      match Plain.tryNew text html with
      | .ok p => .ok (.plain p)
      | .error _ => .error "invalid plain body"
  | mjmlInline source => .ok (.mjml (.inline source))
  | mjmlNamed name => .ok (.mjml (.named name))
  | mjmlRemote url =>
      match parseUrl url with
      | some u => .ok (.mjml (.remote u))
      | none => .error "invalid remote url"

@[simp] theorem toAttachmentRef_ofAttachmentRef (a : AttachmentRef) :
    (AttachmentRefDto.ofAttachmentRef a).toAttachmentRef = a := rfl

@[simp] theorem recipientsFromDto_recipientsToDto (recipients : List (RecipientKind × String)) :
    recipientsFromDto (recipientsToDto recipients) = recipients := by
  rw [recipientsFromDto, recipientsToDto, List.map_map]
  refine List.map_id'' (fun r => ?_) recipients
  obtain ⟨kind, address⟩ := r
  cases kind <;> rfl

theorem tryToBodySource_ofBodySource {parseUrl : String → Option Url}
    (hurl : ∀ u, parseUrl u.text = some u) (body : BodySource) :
    (BodySourceDto.ofBodySource body).tryToBodySource parseUrl = .ok body := by
  cases body with
  | plain p => simp [BodySourceDto.ofBodySource, BodySourceDto.tryToBodySource, Plain.tryNew, p.nonempty]
  | mjml m =>
      cases m with
      | inline | named => rfl
      | remote u => simp [BodySourceDto.ofBodySource, BodySourceDto.tryToBodySource, hurl]

end Catapulte
