import Catapulte.Http.Emails

namespace Catapulte

open Async

structure Attachment where
  filename : String
  contentType : String
  bytes : List UInt8

def Attachment.input (a : Attachment) : AttachmentInput := .inline a.filename a.contentType a.bytes

/-- What an envelope with attachments submits, whichever way it comes in. -/
def submitted (parsers : Parsers) (envelope : Option EnvelopeCoreDto) (attachments : List Attachment) :
    Option SubmitEmailInput :=
  if attachments.length ≤ maxAttachmentsPerEmail ∧ ∀ a ∈ attachments, a.bytes.length ≤ maxAttachmentBytes then
    envelope.bind fun dto => (dto.intoSubmitInput parsers (attachments.map Attachment.input)).toOption
  else none

variable {json : JsonLibrary} {parsers : Parsers} {before after : List (String × Json)}
  {attachments : List Attachment} {encode : List UInt8 → String}

/-- The entry for an attachment, in standard base64. -/
def Attachment.entry (encode : List UInt8 → String) (a : Attachment) : Json :=
  .object [("filename", .string a.filename), ("content_type", .string a.contentType),
    ("inline_base64", .string (encode a.bytes))]

def Attachment.dto (encode : List UInt8 → String) (a : Attachment) : AttachmentDto :=
  ⟨a.filename, a.contentType, some (encode a.bytes), none⟩

def EnvelopeCoreDto.request (dto : EnvelopeCoreDto) (attachments : List AttachmentDto) : SubmitEmailRequest :=
  ⟨dto.idempotencyKey, dto.correlationId, dto.subject, dto.sender, dto.recipients, dto.body, dto.vars, attachments⟩

section Members

variable {k name : String} {v : Json} {i : Nat}

theorem get_insert (h : name ≠ k) : (Json.Fields.named (before ++ (k, v) :: after)).get i name =
    (Json.Fields.named (before ++ after)).get i name := by
  have hne : (name == k) = false := by simpa using h
  simp only [Json.Fields.get, List.lookup_append, List.lookup_cons, hne]

theorem get_self (h : ∀ m ∈ before, m.1 ≠ k) : (Json.Fields.named (before ++ (k, v) :: after)).get i k = some v := by
  have hnone : before.lookup k = none := List.lookup_eq_none_iff.mpr fun m hm => by simpa using (h m hm).symm
  simp [Json.Fields.get, List.lookup_append, hnone]

theorem unrepeated_insert {names : List String} (hnames : k ∉ names) (h : ∀ m ∈ before ++ after, m.1 ≠ k) :
    (Json.object (before ++ (k, v) :: after)).unrepeated (names ++ [k]) =
      (Json.object (before ++ after)).unrepeated names := by
  have hself : (before ++ (k, v) :: after).filter (fun m => m.1 = k) = [(k, v)] := by
    have hother (l : List (String × Json)) (hl : ∀ m ∈ l, m.1 ≠ k) : l.filter (fun m => m.1 = k) = [] := by
      simpa [List.filter_eq_nil_iff] using hl
    rw [List.filter_append, List.filter_cons_of_pos (by simp), hother before fun m hm => h m (List.mem_append_left _ hm),
      hother after fun m hm => h m (List.mem_append_right _ hm), List.nil_append]
  rw [Bool.eq_iff_iff]
  simp only [Json.unrepeated, List.all_append, List.all_cons, hself, List.all_nil, List.length_singleton, Nat.le_refl,
    decide_true, Bool.and_true, List.all_eq_true]
  refine forall₂_congr fun name hname => ?_
  have hne : k ≠ name := fun heq => hnames (heq ▸ hname)
  rw [List.filter_append, List.filter_cons_of_neg (by simpa using hne), List.filter_append]

end Members

theorem fromJson_entry (a : Attachment) : AttachmentDto.fromJson (a.entry encode) = some (a.dto encode) := rfl

theorem fromFields_request (h : ∀ m ∈ before ++ after, m.1 ≠ "attachments") :
    SubmitEmailRequest.fromFields (.named
        (before ++ ("attachments", .array (attachments.map (Attachment.entry encode))) :: after)) =
      (EnvelopeCoreDto.fromFields (.named (before ++ after))).map fun dto =>
        dto.request (attachments.map (Attachment.dto encode)) := by
  have hattachments : Json.asSeq AttachmentDto.fromJson (.array (attachments.map (Attachment.entry encode))) =
      some (attachments.map (Attachment.dto encode)) := Json.asSeq_array attachments fun a _ => fromJson_entry a
  have hself : (Json.Fields.named (before ++ ("attachments", .array (attachments.map (Attachment.entry encode))) :: after)).get
      7 "attachments" = _ := get_self fun m hm => h m (List.mem_append_left _ hm)
  simp only [SubmitEmailRequest.fromFields, EnvelopeCoreDto.fromFields, Json.Fields.required, Json.Fields.defaulted, hself,
    get_insert (show "idempotency_key" ≠ "attachments" by decide), get_insert (show "correlation_id" ≠ "attachments" by decide),
    get_insert (show "subject" ≠ "attachments" by decide), get_insert (show "sender" ≠ "attachments" by decide),
    get_insert (show "recipients" ≠ "attachments" by decide), get_insert (show "body" ≠ "attachments" by decide),
    get_insert (show "variables" ≠ "attachments" by decide), hattachments,
    Option.bind_eq_bind, Option.bind_some, Option.map_bind, Function.comp_def, Option.pure_def, Option.map_some,
    EnvelopeCoreDto.request]

theorem fromJson_request (h : ∀ m ∈ before ++ after, m.1 ≠ "attachments") :
    SubmitEmailRequest.fromJson
        (.object (before ++ ("attachments", .array (attachments.map (Attachment.entry encode))) :: after)) =
      (EnvelopeCoreDto.fromJson (.object (before ++ after))).map fun dto =>
        dto.request (attachments.map (Attachment.dto encode)) := by
  simp only [SubmitEmailRequest.fromJson, EnvelopeCoreDto.fromJson, Json.struct, Json.fields, Option.bind_eq_bind,
    Option.bind_some, unrepeated_insert (show "attachments" ∉ envelopeFields by decide) h, fromFields_request h]
  split <;> rfl

theorem attachmentDtoToInput_dto (hbase64 : ∀ bytes, parsers.base64 (encode bytes) = some bytes) (a : Attachment) :
    attachmentDtoToInput parsers (a.dto encode) =
      if maxAttachmentBytes < a.bytes.length then .error (.attachmentTooLarge a.filename) else .ok a.input := by
  simp only [attachmentDtoToInput, Attachment.dto, hbase64]
  rfl

theorem toOption_eq_some {ε α : Type} {x : Except ε α} {a : α} : x.toOption = some a ↔ x = .ok a := by
  cases x <;> simp [Except.toOption]

theorem toOption_bind {ε α β : Type} (x : Except ε α) (f : α → Except ε β) :
    (x >>= f).toOption = x.toOption.bind fun a => (f a).toOption := by
  cases x <;> rfl

theorem mapM_dto (attachments : List Attachment) (hbase64 : ∀ bytes, parsers.base64 (encode bytes) = some bytes) :
    ((attachments.map (Attachment.dto encode)).mapM (attachmentDtoToInput parsers)).toOption =
      if ∀ a ∈ attachments, a.bytes.length ≤ maxAttachmentBytes then some (attachments.map Attachment.input) else none := by
  induction attachments with
  | nil => rfl
  | cons a attachments ih =>
      rw [List.map_cons, List.mapM_cons, attachmentDtoToInput_dto hbase64]
      by_cases hlarge : maxAttachmentBytes < a.bytes.length
      · rw [if_pos hlarge, if_neg fun hall => absurd (hall a List.mem_cons_self) (Nat.not_le.mpr hlarge)]
        rfl
      · rw [if_neg hlarge, toOption_bind, Except.toOption, Option.bind_some, toOption_bind, ih]
        simp only [List.forall_mem_cons, Nat.le_of_not_lt hlarge, true_and, List.map_cons]
        split <;> rfl

theorem intoSubmitInput_request (hbase64 : ∀ bytes, parsers.base64 (encode bytes) = some bytes) (dto : EnvelopeCoreDto) :
    ((dto.request (attachments.map (Attachment.dto encode))).intoSubmitInput parsers).toOption =
      submitted parsers (some dto) attachments := by
  have hall := mapM_dto attachments hbase64
  simp only [submitted, SubmitEmailRequest.intoSubmitInput, EnvelopeCoreDto.intoSubmitInput, EnvelopeCoreDto.request,
    List.length_map, Option.bind_some]
  cases validateSender parsers dto.sender with
  | error e => simp [bind, Except.bind, Except.toOption]
  | ok u =>
      cases validateRecipients parsers dto.recipients with
      | error e => simp [bind, Except.bind, Except.toOption]
      | ok recipients =>
          cases (BodyDto.tryInto parsers dto.body).mapError EnvelopeConversionError.body with
          | error e => simp [bind, Except.bind, Except.toOption]
          | ok body =>
              change Except.toOption (if maxAttachmentsPerEmail < attachments.length then _ else _) = _
              by_cases hmany : maxAttachmentsPerEmail < attachments.length
              · rw [if_pos hmany, if_neg fun h => absurd h.1 (Nat.not_le.mpr hmany)]
                rfl
              · rw [if_neg hmany, toOption_bind, hall]
                simp only [Nat.le_of_not_lt hmany, true_and]
                split <;> rfl

theorem handleJson_submitted (hbase64 : ∀ bytes, parsers.base64 (encode bytes) = some bytes)
    (h : ∀ m ∈ before ++ after, m.1 ≠ "attachments") {body : List UInt8} (hlimit : body.length ≤ maxRequestBodyBytes)
    (hbody : json.parse body = .ok (.object
      (before ++ ("attachments", .array (attachments.map (Attachment.entry encode))) :: after))) :
    (handleJson json parsers (.ok body)).toOption =
      submitted parsers (EnvelopeCoreDto.fromJson (.object (before ++ after))) attachments := by
  have hbytes : toBytes maxRequestBodyBytes (.ok body) = .ok body := if_neg (Nat.not_lt.mpr hlimit)
  simp only [handleJson, hbytes, JsonLibrary.fromSlice, hbody, fromJson_request h]
  cases EnvelopeCoreDto.fromJson (.object (before ++ after)) with
  | none => simp [submitted, Except.toOption]
  | some dto =>
      rw [← intoSubmitInput_request hbase64]
      simp only [Option.map_some]
      cases (dto.request (attachments.map (Attachment.dto encode))).intoSubmitInput parsers <;> rfl

variable {R : Type} [AsyncRead R] {room : List (List UInt8) → Nat} {n polls : Nat} {fields : List (Field R)}

/-- The part holds the file. -/
def Field.Holds (n : Nat) (field : Field R) (a : Attachment) : Prop :=
  field.fileName = some a.filename ∧ field.contentType = some a.contentType ∧ Delivers n field.reader a.bytes

def envelopesOf (fields : List (Field R)) : List (Field R) := fields.filter fun f => f.name = some "envelope"

def attachmentsOf (fields : List (Field R)) : List (Field R) := fields.filter fun f => f.name = some "attachment"

/-- Among unknown parts, one part holds the envelope, and one each attachment in order. -/
structure Carries (n : Nat) (envelope : List UInt8) (attachments : List Attachment) (fields : List (Field R)) : Prop where
  envelope : ∃ field, envelopesOf fields = [field] ∧ Delivers n field.reader envelope
  attachments : List.Forall₂ (Field.Holds n) (attachmentsOf fields) attachments

variable {field : Field R} {envelope : List UInt8} {acc : Option EnvelopeCoreDto} {inputs : List AttachmentInput}

theorem readEnvelope_spec (json : JsonLibrary) (hroom : ∀ pieces, 0 < room pieces) (hpolls : n ≤ polls) (h : Delivers n field.reader envelope)
    (hsize : envelope.length ≤ maxEnvelopeBytes) : ∃ r, readEnvelope json room polls field = some r ∧
      r.toOption = (json.fromSlice EnvelopeCoreDto.fromJson envelope).toOption := by
  have hread : readToEnd room polls (LimitedReader.new field.reader maxEnvelopeBytes) [] = some (.ok envelope) := by
    rw [LimitedReader.readToEnd_limited hroom h hpolls, if_pos hsize]
    rfl
  simp only [readEnvelope, hread, Option.bind_eq_bind, Option.bind_some]
  cases json.fromSlice EnvelopeCoreDto.fromJson envelope <;> exact ⟨_, rfl, rfl⟩

theorem readAttachment_spec {a : Attachment} (inputs : List AttachmentInput) (hroom : ∀ pieces, 0 < room pieces) (hpolls : n ≤ polls)
    (h : field.Holds n a) : ∃ r, readAttachment room polls inputs field = some r ∧
      r.toOption = if inputs.length < maxAttachmentsPerEmail ∧ a.bytes.length ≤ maxAttachmentBytes then some a.input
        else none := by
  obtain ⟨hname, htype, hbytes⟩ := h
  unfold readAttachment
  by_cases hmany : maxAttachmentsPerEmail ≤ inputs.length
  · rw [if_pos hmany, if_neg fun h => absurd h.1 (Nat.not_lt.mpr hmany)]
    exact ⟨_, rfl, rfl⟩
  · rw [if_neg hmany, hname, htype]
    simp only [LimitedReader.readToEnd_limited hroom hbytes hpolls, Nat.lt_of_not_le hmany, true_and]
    by_cases hsize : a.bytes.length ≤ maxAttachmentBytes
    · rw [if_pos hsize, if_pos hsize]
      exact ⟨_, rfl, rfl⟩
    · rw [if_neg hsize, if_neg hsize]
      exact ⟨_, rfl, rfl⟩

/-- The envelope that the loop ends with: the one read already, or the one that is
still to come. -/
def Awaits (json : JsonLibrary) (n : Nat) (envelope : List UInt8) (acc : Option EnvelopeCoreDto)
    (fields : List (Field R)) (dto : Option EnvelopeCoreDto) : Prop :=
  (acc = none ∧ dto = (json.fromSlice EnvelopeCoreDto.fromJson envelope).toOption ∧
    ∃ field, envelopesOf fields = [field] ∧ Delivers n field.reader envelope) ∨
  acc = dto ∧ dto.isSome = true ∧ envelopesOf fields = []

theorem readFields_unknown {fields : List (Except String (Field R))} (henvelope : field.name ≠ some "envelope")
    (hattachment : field.name ≠ some "attachment") :
    readFields json room polls (.ok field :: fields) acc inputs = readFields json room polls fields acc inputs := by
  have hne (name : String) (hname : name ≠ "") (h : field.name ≠ some name) : field.name.getD "" ≠ name := by
    cases hfield : field.name with
    | none => exact hname.symm
    | some other => exact fun heq => h (hfield.trans (congrArg some heq))
  rw [readFields]
  split
  · exact absurd ‹_› (hne _ (by decide) henvelope)
  · exact absurd ‹_› (hne _ (by decide) hattachment)
  · rfl

theorem readFields_spec {dto : Option EnvelopeCoreDto} {rest : List Attachment} (done : List Attachment)
    (hroom : ∀ pieces, 0 < room pieces) (hpolls : n ≤ polls) (hsize : envelope.length ≤ maxEnvelopeBytes)
    (henvelope : Awaits json n envelope acc fields dto) (hdone : done.length ≤ maxAttachmentsPerEmail)
    (hrest : List.Forall₂ (Field.Holds n) (attachmentsOf fields) rest) :
    ∃ r, readFields json room polls (fields.map .ok) acc (done.map Attachment.input) = some r ∧
      r.toOption = if done.length + rest.length ≤ maxAttachmentsPerEmail ∧
          ∀ a ∈ rest, a.bytes.length ≤ maxAttachmentBytes then
        dto.map fun dto => (some dto, (done ++ rest).map Attachment.input) else none := by
  induction fields generalizing acc done rest with
  | nil =>
      cases hrest
      rcases henvelope with ⟨-, -, field, hfield, -⟩ | ⟨rfl, hdto, -⟩
      · cases hfield
      · obtain ⟨dto, rfl⟩ := Option.isSome_iff_exists.mp hdto
        refine ⟨_, rfl, ?_⟩
        simp [hdone, Except.toOption]
  | cons field fields ih =>
      rw [List.map_cons]
      by_cases hname : field.name = some "envelope"
      · have hattachments : attachmentsOf (field :: fields) = attachmentsOf fields :=
          List.filter_cons_of_neg (by simp [hname])
        have henvelopes : envelopesOf (field :: fields) = field :: envelopesOf fields :=
          List.filter_cons_of_pos (by simp [hname])
        rw [hattachments] at hrest
        rcases henvelope with ⟨rfl, rfl, field', hfield, hbytes⟩ | ⟨-, -, hnone⟩
        · rw [henvelopes, List.cons.injEq] at hfield
          obtain ⟨rfl, hno⟩ := hfield
          obtain ⟨r, hr, hvalue⟩ := readEnvelope_spec json hroom hpolls hbytes hsize
          simp only [readFields, hname, Option.getD_some, hr, Option.bind_eq_bind, Option.bind_some]
          cases r with
          | error e =>
              refine ⟨_, rfl, ?_⟩
              rw [← hvalue]
              simp [Except.toOption]
          | ok dto => exact ih done (.inr ⟨hvalue, by rw [← hvalue]; rfl, hno⟩) hdone hrest
        · rw [henvelopes] at hnone
          cases hnone
      · have henvelopes : envelopesOf (field :: fields) = envelopesOf fields :=
          List.filter_cons_of_neg (by simpa using hname)
        unfold Awaits at henvelope
        rw [henvelopes] at henvelope
        by_cases hname' : field.name = some "attachment"
        · have hattachments : attachmentsOf (field :: fields) = field :: attachmentsOf fields :=
            List.filter_cons_of_pos (by simp [hname'])
          rw [hattachments] at hrest
          cases hrest with
          | @cons _ a _ rest hholds hrest =>
              obtain ⟨r, hr, hvalue⟩ := readAttachment_spec (done.map Attachment.input) hroom hpolls hholds
              simp only [readFields, hname', Option.getD_some, hr, Option.bind_eq_bind, Option.bind_some]
              rw [List.length_map] at hvalue
              by_cases hok : done.length < maxAttachmentsPerEmail ∧ a.bytes.length ≤ maxAttachmentBytes
              · rw [if_pos hok] at hvalue
                cases r with
                | error e => cases hvalue
                | ok input =>
                    cases hvalue
                    have hdone' : (done ++ [a]).length ≤ maxAttachmentsPerEmail := by
                      rw [List.length_append, List.length_singleton]
                      exact hok.1
                    have hrec := ih (done ++ [a]) henvelope hdone' hrest
                    rw [List.map_append, List.length_append, List.append_assoc] at hrec
                    simpa [hok.2, Nat.add_assoc, Nat.add_comm 1] using hrec
              · rw [if_neg hok] at hvalue
                cases r with
                | ok input => cases hvalue
                | error e =>
                    refine ⟨_, rfl, ?_⟩
                    rw [if_neg]
                    · rfl
                    · rintro ⟨hlength, hall⟩
                      rw [List.length_cons] at hlength
                      exact hok ⟨by omega, hall a List.mem_cons_self⟩
        · have hattachments : attachmentsOf (field :: fields) = attachmentsOf fields :=
            List.filter_cons_of_neg (by simpa using hname')
          rw [hattachments] at hrest
          rw [readFields_unknown hname hname']
          exact ih done henvelope hdone hrest

theorem handleMultipart_submitted (json : JsonLibrary) (parsers : Parsers) (hroom : ∀ pieces, 0 < room pieces)
    (hpolls : n ≤ polls) (hsize : envelope.length ≤ maxEnvelopeBytes) (h : Carries n envelope attachments fields) :
    ∃ r, handleMultipart json parsers room polls (.ok (fields.map .ok)) = some r ∧
      r.toOption = submitted parsers (json.fromSlice EnvelopeCoreDto.fromJson envelope).toOption attachments := by
  have hawaits : Awaits json n envelope none fields _ := .inl ⟨rfl, rfl, h.envelope⟩
  obtain ⟨r, hr, hvalue⟩ := readFields_spec [] hroom hpolls hsize hawaits (Nat.zero_le _) h.attachments
  rw [List.map_nil] at hr
  simp only [handleMultipart, hr, Option.bind_eq_bind, Option.bind_some, submitted]
  rw [List.length_nil, Nat.zero_add, List.nil_append] at hvalue
  revert hvalue
  generalize (json.fromSlice EnvelopeCoreDto.fromJson envelope).toOption = dto
  split
  · intro hvalue
    cases dto with
    | none =>
        cases r with
        | error e => exact ⟨_, rfl, rfl⟩
        | ok result => cases hvalue
    | some dto =>
        cases r with
        | error e => cases hvalue
        | ok result =>
            cases hvalue
            refine ⟨_, rfl, ?_⟩
            rw [Option.bind_some]
            cases dto.intoSubmitInput parsers (attachments.map Attachment.input) <;> rfl
  · intro hvalue
    cases r with
    | error e => exact ⟨_, rfl, rfl⟩
    | ok result => cases hvalue

/-- Whatever the limits, the orders of the parts and the pieces they come in, both
forms accept the same submissions and read the same input from them. -/
theorem submissions_agree (json : JsonLibrary) (parsers : Parsers) (encode : List UInt8 → String)
    (hbase64 : ∀ bytes, parsers.base64 (encode bytes) = some bytes) (before after : List (String × Json))
    (hmembers : ∀ m ∈ before ++ after, m.1 ≠ "attachments") (envelope : List UInt8)
    (henvelope : json.parse envelope = .ok (.object (before ++ after))) (hsize : envelope.length ≤ maxEnvelopeBytes)
    (attachments : List Attachment) (body : List UInt8)
    (hbody : json.parse body = .ok (.object
      (before ++ ("attachments", .array (attachments.map (Attachment.entry encode))) :: after)))
    (hlimit : body.length ≤ maxRequestBodyBytes) {R : Type} [AsyncRead R] (n : Nat) (fields : List (Field R))
    (hfields : Carries n envelope attachments fields) (room : List (List UInt8) → Nat) (hroom : ∀ pieces, 0 < room pieces)
    (polls : Nat) (hpolls : n ≤ polls) :
    ∃ r, handleMultipart json parsers room polls (.ok (fields.map .ok)) = some r ∧
      ∀ input, handleJson json parsers (.ok body) = .ok input ↔ r = .ok input := by
  have hmultipart := handleMultipart_submitted json parsers hroom hpolls hsize hfields
  have hjson := handleJson_submitted hbase64 hmembers hlimit hbody
  obtain ⟨r, hr, hvalue⟩ := hmultipart
  have hdto : (json.fromSlice EnvelopeCoreDto.fromJson envelope).toOption =
      EnvelopeCoreDto.fromJson (.object (before ++ after)) := by
    simp only [JsonLibrary.fromSlice, henvelope]
    cases EnvelopeCoreDto.fromJson (.object (before ++ after)) <;> rfl
  refine ⟨r, hr, fun input => ?_⟩
  rw [hdto, ← hjson] at hvalue
  rw [← toOption_eq_some, ← hvalue, toOption_eq_some]

def letter : List (String × Json) :=
  [("sender", .string "from@example.com"),
    ("recipients", .array [.object [("kind", .string "to"), ("address", .string "to@example.com")]]),
    ("body", .object [("kind", .string "plain"), ("text", .string "hi")])]

def file : Attachment := ⟨"hi.txt", "text/plain", [104, 105]⟩

/-- The standard base64 of the file, and another code for everything else. -/
def encodeFile (bytes : List UInt8) : String :=
  if bytes = [104, 105] then "aGk=" else .ofList ('!' :: bytes.map fun b => Char.ofNat b.toNat)

def decodeFile (s : String) : Option (List UInt8) :=
  if s = "aGk=" then some [104, 105]
  else
    match s.toList with
    | '!' :: cs => some (cs.map fun c => c.toNat.toUInt8)
    | _ => none

theorem toUInt8_ofNat (b : UInt8) : (Char.ofNat b.toNat).toNat.toUInt8 = b := by
  have hlt : b.toNat < 256 := b.toNat_lt
  have hvalid : b.toNat.isValidChar := .inl (by omega)
  have htoNat : (Char.ofNat b.toNat).toNat = b.toNat := by
    rw [Char.ofNat, dif_pos hvalid]
    rfl
  rw [htoNat, Nat.toUInt8_eq, UInt8.ofNat_toNat]

theorem decodeFile_encodeFile (bytes : List UInt8) : decodeFile (encodeFile bytes) = some bytes := by
  unfold encodeFile
  split
  · rename_i h
    rw [h]
    rfl
  · have hne : String.ofList ('!' :: bytes.map fun b => Char.ofNat b.toNat) ≠ "aGk=" := by
      intro heq
      have hchars := congrArg String.toList heq
      simp at hchars
    simp only [decodeFile, if_neg hne, String.toList_ofList, List.map_map, Function.comp_def, toUInt8_ofNat, List.map_id']

def ascii (lines : List String) : List UInt8 := lines.flatMap fun s => s.toList.map fun c => c.toNat.toUInt8

def senderText : List String :=
  ["\"sender\":\"from@example.com\",\"recipients\":[\x7b\"kind\":\"to\",\"address\":\"to@example.com\"\x7d],",
    "\"body\":\x7b\"kind\":\"plain\",\"text\":\"hi\"\x7d\x7d"]

@[irreducible] def letterText : List UInt8 := ascii ("\x7b" :: senderText)

@[irreducible] def fullText : List UInt8 :=
  ascii ("\x7b\"attachments\":[\x7b\"filename\":\"hi.txt\",\"content_type\":\"text/plain\"," ::
    "\"inline_base64\":\"aGk=\"\x7d]," :: senderText)

theorem text_lengths : letterText.length < 200 ∧ fullText.length < 300 := by decide +kernel

def letterJson : JsonLibrary where
  parse bytes :=
    if bytes = fullText then .ok (.object (("attachments", .array [file.entry encodeFile]) :: letter))
    else if bytes = letterText then .ok (.object letter)
    else .error "expected value at line 1 column 1"
  mismatch _ := "invalid type"

def letterParsers : Parsers where
  emailAddress s := s.toList.contains '@'
  url s := some ⟨s⟩
  base64 := decodeFile

theorem parse_fullText :
    letterJson.parse fullText = .ok (.object (("attachments", .array [file.entry encodeFile]) :: letter)) := by
  simp only [letterJson, if_true]

theorem parse_letterText : letterJson.parse letterText = .ok (.object letter) := by
  have hne : letterText ≠ fullText := fun h => absurd (congrArg (fun text => text[2]?) h) (by decide +kernel)
  simp only [letterJson, if_neg hne, if_true]

/-- A part that is ignored, the file in two chunks, and the envelope. -/
def letterParts : List (Field Chunks) :=
  [⟨some "note", none, none, [[1, 2, 3]]⟩, ⟨some "attachment", some "hi.txt", some "text/plain", [[104], [105]]⟩,
    ⟨some "envelope", none, none, [letterText]⟩]

def letterInput : SubmitEmailInput :=
  ⟨none, none, none, "from@example.com", [(.to, "to@example.com")], .plain ⟨some "hi", none, .inl rfl⟩, .new,
    [.inline "hi.txt" "text/plain" [104, 105]]⟩

theorem submissions_agree_file :
    handleMultipart letterJson letterParsers (fun _ => 32) 1000 (.ok (letterParts.map .ok)) = some (.ok letterInput) ∧
      handleJson letterJson letterParsers (.ok fullText) = .ok letterInput := by
  have hlengths := text_lengths
  have hletter : Delivers 1000 ([letterText] : Chunks) letterText := by
    have h : Delivers 1000 ([letterText] : Chunks) [letterText].flatten :=
      delivers_chunks [letterText] (by simpa using Nat.lt_trans text_lengths.1 (by decide))
    rwa [List.flatten_singleton] at h
  have hcarries : Carries 1000 letterText [file] letterParts :=
    ⟨⟨_, rfl, hletter⟩, .cons ⟨rfl, rfl, delivers_chunks [[104], [105]] (by decide)⟩ .nil⟩
  obtain ⟨r, hr, hagree⟩ := submissions_agree letterJson letterParsers encodeFile decodeFile_encodeFile [] letter
    (by decide) letterText parse_letterText (by unfold maxEnvelopeBytes; omega) [file] fullText parse_fullText
    (by unfold maxRequestBodyBytes; omega) 1000
    letterParts hcarries (fun _ => 32) (fun _ => by decide) 1000 (Nat.le_refl _)
  have hbytes : toBytes maxRequestBodyBytes (.ok fullText) = .ok fullText :=
    if_neg (by unfold maxRequestBodyBytes; omega)
  have hjson : handleJson letterJson letterParsers (.ok fullText) = .ok letterInput := by
    simp only [handleJson, hbytes, JsonLibrary.fromSlice, parse_fullText]
    rfl
  obtain rfl := (hagree letterInput).mp hjson
  exact ⟨hr, hjson⟩

end Catapulte
