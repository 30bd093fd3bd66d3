import PrismInfer.Lib.FixedBytes
import PrismInfer.Lib.PrefixCode
import PrismInfer.Lib.StateExcept

/-!
# Content fingerprints of media

`_update_content_hash` feeds a digest the content of one media value under a type tag. The
hasher is the list of bytes fed so far. A buffer is what `memoryview(..).cast("B")` shows of
a value, `none` where the cast raises; files are read through a snapshot of the file system.
-/
namespace PrismInfer
open StateExcept FixedBytes PrefixCode

inductive MediaError
  /-- `int.to_bytes`: the length does not fit eight bytes. -/
  | lengthTooBig (length : ℕ)
  /-- The value has no byte view. -/
  | noByteView
deriving DecidableEq, Repr

inductive BytesKind
  | bytes | bytearray | memoryview
deriving DecidableEq, Repr

inductive PathKind
  | str | path
deriving DecidableEq, Repr

inductive SequenceKind
  | list | tuple
deriving DecidableEq, Repr

/-- `type(value).__name__`. -/
def SequenceKind.name : SequenceKind → String
  | list => "list"
  | tuple => "tuple"

structure PILImage where
  mode : String
  size : ℕ × ℕ
  tobytes : Option (List UInt8)
  /-- `convert("RGBA").tobytes()`. -/
  rgba : Option (List UInt8)
deriving DecidableEq, Repr

/-- A numpy array or a torch tensor with the name of its dtype. -/
structure DenseArray where
  dtype : String
  shape : List ℕ
  buffer : Option (List UInt8)
deriving DecidableEq, Repr

/-- `other` is any value of another type: a mapping, a number, an opaque object. -/
inductive MediaValue
  | bytesLike (kind : BytesKind) (buffer : Option (List UInt8))
  | path (kind : PathKind) (name : String)
  | image (value : PILImage)
  | array (value : DenseArray)
  | tensor (value : DenseArray)
  | sequence (kind : SequenceKind) (items : List MediaValue)
  | other (typeName : String)

/-- Regular files by path, and `Path(name).suffix.lower()`. A path that is no file, or
cannot be examined, has no content. -/
structure FileSystem where
  content : String → Option (List UInt8)
  suffix : String → String

abbrev Hashing := EStateM MediaError (List UInt8)

def update (view : List UInt8) : Hashing Unit :=
  modify (· ++ view)

/-- `n.to_bytes(8, "little")`. -/
def updateLength (n : ℕ) : Hashing Unit := do
  require (n < 256 ^ 8) (.lengthTooBig n)
  update (bytesLE 8 n)

def updateLengthDelimited : Option (List UInt8) → Hashing Unit
  | none => throw .noByteView
  | some view => do
    updateLength view.length
    update view

def utf8 (value : String) : List UInt8 :=
  value.toUTF8.data.toList

def updateText (value : String) : Hashing Unit :=
  updateLengthDelimited (some (utf8 value))

/-- `json.dumps` of a tuple of integers. -/
def jsonDumps (shape : List ℕ) : String :=
  "[" ++ String.intercalate ", " (shape.map Nat.repr) ++ "]"

/-- `np.ascontiguousarray` returns at least one dimension. -/
def contiguousShape (shape : List ℕ) : List ℕ :=
  if shape = [] then [1] else shape

def PILImage.indexed (image : PILImage) : Prop :=
  image.mode = "P" ∨ image.mode = "PA"

instance (image : PILImage) : Decidable image.indexed :=
  inferInstanceAs (Decidable (_ ∨ _))

mutual

def updateContentHash (files : FileSystem) : MediaValue → Hashing Bool
  | .bytesLike _ buffer => do
    updateText "bytes"
    updateLengthDelimited buffer
    pure true
  | .path _ name =>
    match files.content name with
    | none => pure false
    | some content => do
      updateText "file"
      updateText (files.suffix name)
      updateLength content.length
      update content
      pure true
  | .image value => do
    updateText "pil"
    updateText value.mode
    updateText (jsonDumps [value.size.1, value.size.2])
    updateLengthDelimited value.tobytes
    -- Indexed bytes alone do not identify the colors of a palette image.
    when value.indexed (updateLengthDelimited value.rgba)
    pure true
  | .array value => do
    updateText "numpy"
    updateText value.dtype
    updateText (jsonDumps (contiguousShape value.shape))
    updateLengthDelimited value.buffer
    pure true
  | .tensor value => do
    updateText "torch"
    updateText value.dtype
    updateText (jsonDumps value.shape)
    updateLengthDelimited value.buffer
    pure true
  | .sequence kind items => do
    updateText kind.name
    updateLength items.length
    updateAll files items
  | .other _ => pure false

/-- `all(...)` stops at the first item that is not supported. -/
def updateAll (files : FileSystem) : List MediaValue → Hashing Bool
  | [] => pure true
  | value :: values => do
    let supported ← updateContentHash files value
    if supported then updateAll files values else pure false

end

def MEDIA_CACHE_KEY_SCHEMA : String := "prism_media_content_v1"

/-- The hasher a fingerprint is taken of, and whether every value is supported. -/
def fingerprintHasher (files : FileSystem) (values : List MediaValue) : Hashing Bool := do
  updateText MEDIA_CACHE_KEY_SCHEMA
  updateAll files values

/-- The digest of a fresh hasher, `none` when some value is not supported. -/
def contentFingerprint {δ : Type} (files : FileSystem) (sha256 : List UInt8 → δ)
    (values : List MediaValue) : Except MediaError (Option δ) :=
  match fingerprintHasher files values [] with
  | .ok true hasher => .ok (some (sha256 hasher))
  | .ok false _ => .ok none
  | .error e _ => .error e

/-! ## The fields -/

theorem utf8_injective : Function.Injective utf8 := by
  intro value value' h
  unfold utf8 at h
  have hbytes : value.toUTF8 = value'.toUTF8 := by
    rw [ByteArray.ext_iff]
    exact Array.toList_inj.mp h
  rw [String.toUTF8_eq_toByteArray, String.toUTF8_eq_toByteArray] at hbytes
  exact String.toByteArray_inj.mp hbytes

/-- A shape as `jsonDumps` writes it, up to the closing bracket. -/
def jsonTail (shape : List ℕ) : List Char :=
  [',', ' '].intercalate (shape.map (Nat.toDigits 10)) ++ [']']

theorem toList_jsonDumps (shape : List ℕ) : (jsonDumps shape).toList = '[' :: jsonTail shape := by
  unfold jsonDumps jsonTail
  rw [String.toList_append, String.toList_append, String.toList_intercalate, List.map_map]
  have hdigits : String.toList ∘ Nat.repr = Nat.toDigits 10 := funext fun n => Nat.toList_repr
  rw [hdigits]
  rfl

theorem jsonTail_cons (n : ℕ) (shape : List ℕ) :
    jsonTail (n :: shape) = Nat.toDigits 10 n ++
      if shape = [] then [']'] else ',' :: ' ' :: jsonTail shape := by
  cases shape with
  | nil => simp [jsonTail]
  | cons m shape => simp [jsonTail, List.intercalate]

theorem jsonTail_cons_rest (shape : List ℕ) :
    ∃ c cs, (if shape = [] then [']'] else ',' :: ' ' :: jsonTail shape) = c :: cs ∧
      ¬ c.isDigit = true := by
  by_cases h : shape = []
  · exact ⟨']', [], if_pos h, by decide⟩
  · exact ⟨',', _, if_neg h, by decide⟩

theorem isDigit_toDigits (n : ℕ) : ∀ c ∈ Nat.toDigits 10 n, c.isDigit = true := fun _ hc =>
  Nat.isDigit_of_mem_toDigits (by decide) (by decide) hc

theorem toDigits_injective : Function.Injective (Nat.toDigits 10) :=
  Function.LeftInverse.injective fun _ => Nat.ofDigitChars_ten_toDigits

theorem jsonTail_cons_ne_nil (n : ℕ) (shape : List ℕ) : jsonTail (n :: shape) ≠ jsonTail [] := by
  intro h
  rw [jsonTail_cons] at h
  obtain ⟨c, cs, hrest, hc⟩ := jsonTail_cons_rest shape
  have hempty : ∀ c ∈ ([] : List Char), c.isDigit = true := by simp
  have hnil := run_inj (isDigit_toDigits n) hempty ⟨c, cs, hrest, hc⟩
    ⟨']', [], rfl, by decide⟩ h
  exact Nat.toDigits_ne_nil hnil.1

theorem jsonTail_injective {shape shape' : List ℕ} (h : jsonTail shape = jsonTail shape') :
    shape = shape' := by
  induction shape generalizing shape' with
  | nil =>
    cases shape' with
    | nil => rfl
    | cons m shape' => exact absurd h.symm (jsonTail_cons_ne_nil m shape')
  | cons n shape ih =>
    cases shape' with
    | nil => exact absurd h (jsonTail_cons_ne_nil n shape)
    | cons m shape' =>
      rw [jsonTail_cons, jsonTail_cons] at h
      obtain ⟨hdigits, hrest⟩ := run_inj (isDigit_toDigits n) (isDigit_toDigits m)
        (jsonTail_cons_rest shape) (jsonTail_cons_rest shape') h
      obtain rfl := toDigits_injective hdigits
      by_cases hs : shape = [] <;> by_cases hs' : shape' = []
      · rw [hs, hs']
      · simp [hs, hs'] at hrest
      · simp [hs, hs'] at hrest
      · simp only [hs, hs', if_false, List.cons.injEq, true_and] at hrest
        rw [ih hrest]

theorem jsonDumps_injective : Function.Injective jsonDumps := by
  intro shape shape' h
  have hlist := congrArg String.toList h
  rw [toList_jsonDumps, toList_jsonDumps, List.cons.injEq] at hlist
  exact jsonTail_injective hlist.2

/-- The eight bytes of a length. -/
def Length (n : ℕ) (fed : List UInt8) : Prop :=
  n < 256 ^ 8 ∧ fed = bytesLE 8 n

theorem Length.prefixFree : PrefixFree Eq Length := by
  have hwidth : ∀ {n fed}, Length n fed → fed.length = 8 := by
    rintro n _ ⟨-, rfl⟩
    exact length_bytesLE 8 n
  refine PrefixFree.of_width hwidth ?_
  rintro n n' _ ⟨hn, rfl⟩ ⟨hn', heq⟩
  exact bytesLE_injOn hn hn' heq

def LengthDelimited : List UInt8 → List UInt8 → Prop :=
  Sized Length

theorem LengthDelimited.prefixFree : PrefixFree Eq LengthDelimited :=
  Length.prefixFree.sized

def Text (value : String) : List UInt8 → Prop :=
  LengthDelimited (utf8 value)

theorem Text.prefixFree : PrefixFree Eq Text := by
  intro value value' s s' rest rest' hs hs' heq
  obtain ⟨hutf8, hrest⟩ := LengthDelimited.prefixFree _ hs hs' heq
  exact ⟨utf8_injective hutf8, hrest⟩

theorem Text.ne_nil {value : String} {fed : List UInt8} (h : Text value fed) : fed ≠ [] := by
  obtain ⟨_, ⟨-, rfl⟩, rfl⟩ := h
  simp [bytesLE]

variable {files : FileSystem} {hasher hasher' : List UInt8}

theorem updateLength_ok {n : ℕ} (h : updateLength n hasher = .ok () hasher') :
    ∃ fed, Length n fed ∧ hasher' = hasher ++ fed := by
  simp only [updateLength, update, bind_ok, require_ok, modify_ok] at h
  obtain ⟨-, _, ⟨hn, rfl⟩, rfl⟩ := h
  exact ⟨_, ⟨hn, rfl⟩, rfl⟩

theorem updateLengthDelimited_ok {buffer : Option (List UInt8)}
    (h : updateLengthDelimited buffer hasher = .ok () hasher') :
    ∃ view fed, buffer = some view ∧ LengthDelimited view fed ∧ hasher' = hasher ++ fed := by
  cases buffer with
  | none => simp [updateLengthDelimited] at h
  | some view =>
    simp only [updateLengthDelimited, update, bind_ok, modify_ok] at h
    obtain ⟨⟨⟩, _, hlength, rfl⟩ := h
    obtain ⟨header, hheader, rfl⟩ := updateLength_ok hlength
    exact ⟨view, header ++ view, rfl, ⟨header, hheader, rfl⟩, List.append_assoc ..⟩

theorem updateText_ok {value : String} (h : updateText value hasher = .ok () hasher') :
    ∃ fed, Text value fed ∧ hasher' = hasher ++ fed := by
  obtain ⟨view, fed, hview, hfed, rfl⟩ := updateLengthDelimited_ok h
  obtain rfl := Option.some.inj hview
  exact ⟨fed, hfed, rfl⟩

/-! ## What one value feeds -/

/-- The colors of a palette image; nothing for the other modes. -/
def Colors (image : PILImage) (fed : List UInt8) : Prop :=
  if image.indexed then ∃ view, image.rgba = some view ∧ LengthDelimited view fed else fed = []

/-- The fields of an array: its dtype, its shape and its bytes. -/
def ArrayFields (dtype : String) (shape : List ℕ) (buffer : Option (List UInt8))
    (fed : List UInt8) : Prop :=
  ∃ dtypeFed shapeFed view viewFed, Text dtype dtypeFed ∧ Text (jsonDumps shape) shapeFed ∧
    buffer = some view ∧ LengthDelimited view viewFed ∧
    fed = dtypeFed ++ (shapeFed ++ viewFed)

def ImageFields (image : PILImage) (fed : List UInt8) : Prop :=
  ∃ arrayFed colorsFed,
    ArrayFields image.mode [image.size.1, image.size.2] image.tobytes arrayFed ∧
    Colors image colorsFed ∧ fed = arrayFed ++ colorsFed

theorem MediaValue.itemInduction {motive : MediaValue → Prop}
    (step : ∀ value, (∀ kind items, value = .sequence kind items → ∀ item ∈ items, motive item) →
      motive value) (value : MediaValue) : motive value :=
  step value fun kind items _hvalue item _hitem => MediaValue.itemInduction step item
termination_by sizeOf value
decreasing_by
  subst _hvalue
  have := List.sizeOf_lt_of_mem _hitem
  simp only [MediaValue.sequence.sizeOf_spec]
  omega

def MediaValue.tag : MediaValue → String
  | bytesLike _ _ => "bytes"
  | path _ _ => "file"
  | image _ => "pil"
  | array _ => "numpy"
  | tensor _ => "torch"
  | sequence kind _ => kind.name
  | other typeName => typeName

/-- `Fed files value fed`: the hasher of a supported value takes these bytes. -/
inductive Fed (files : FileSystem) : MediaValue → List UInt8 → Prop
  | bytesLike {kind view tag fed} (htag : Text "bytes" tag) (hfed : LengthDelimited view fed) :
      Fed files (.bytesLike kind (some view)) (tag ++ fed)
  | path {kind name content tag suffixFed lengthFed} (htag : Text "file" tag)
      (hcontent : files.content name = some content)
      (hsuffix : Text (files.suffix name) suffixFed) (hlength : Length content.length lengthFed) :
      Fed files (.path kind name) (tag ++ (suffixFed ++ (lengthFed ++ content)))
  | image {value tag fed} (htag : Text "pil" tag) (hfed : ImageFields value fed) :
      Fed files (.image value) (tag ++ fed)
  | array {value tag fed} (htag : Text "numpy" tag)
      (hfed : ArrayFields value.dtype (contiguousShape value.shape) value.buffer fed) :
      Fed files (.array value) (tag ++ fed)
  | tensor {value tag fed} (htag : Text "torch" tag)
      (hfed : ArrayFields value.dtype value.shape value.buffer fed) :
      Fed files (.tensor value) (tag ++ fed)
  | sequence {kind items tag countFed feds} (htag : Text kind.name tag)
      (hcount : Length items.length countFed) (hitems : List.Forall₂ (Fed files) items feds) :
      Fed files (.sequence kind items) (tag ++ (countFed ++ feds.flatten))

theorem Fed.tagged {value : MediaValue} {fed : List UInt8} (h : Fed files value fed) :
    ∃ tag body, Text value.tag tag ∧ fed = tag ++ body := by
  cases h with
  | bytesLike htag | path htag | image htag | array htag | tensor htag | sequence htag =>
    exact ⟨_, _, htag, rfl⟩

theorem Fed.ne_nil {value : MediaValue} {fed : List UInt8} (h : Fed files value fed) :
    fed ≠ [] := by
  obtain ⟨tag, body, htag, rfl⟩ := h.tagged
  exact List.append_ne_nil_of_left_ne_nil htag.ne_nil body

theorem Fed.tag_eq {value value' : MediaValue} {fed fed' rest rest' : List UInt8}
    (h : Fed files value fed) (h' : Fed files value' fed') (heq : fed ++ rest = fed' ++ rest') :
    value.tag = value'.tag := by
  obtain ⟨tag, body, htag, rfl⟩ := h.tagged
  obtain ⟨tag', body', htag', rfl⟩ := h'.tagged
  rw [List.append_assoc, List.append_assoc] at heq
  exact (Text.prefixFree _ htag htag' heq).1

/-- The same media content: bytes under any of the three types, files by their suffix and
content under either spelling of a path, arrays by dtype, shape and bytes, images by mode,
size and pixels, with the colors where the mode is indexed, and sequences of one type item
by item. -/
inductive SameMedia (files : FileSystem) : MediaValue → MediaValue → Prop
  | bytesLike {kind kind' view} :
      SameMedia files (.bytesLike kind (some view)) (.bytesLike kind' (some view))
  | path {kind kind' name name' content} (hcontent : files.content name = some content)
      (hcontent' : files.content name' = some content)
      (hsuffix : files.suffix name = files.suffix name') :
      SameMedia files (.path kind name) (.path kind' name')
  | image {value value'} (hmode : value.mode = value'.mode) (hsize : value.size = value'.size)
      (htobytes : value.tobytes = value'.tobytes)
      (hrgba : value.indexed → value.rgba = value'.rgba) :
      SameMedia files (.image value) (.image value')
  | array {value value'} (hdtype : value.dtype = value'.dtype)
      (hshape : contiguousShape value.shape = contiguousShape value'.shape)
      (hbuffer : value.buffer = value'.buffer) :
      SameMedia files (.array value) (.array value')
  | tensor {value} : SameMedia files (.tensor value) (.tensor value)
  | sequence {kind items items'} (hitems : List.Forall₂ (SameMedia files) items items') :
      SameMedia files (.sequence kind items) (.sequence kind items')

theorem ArrayFields.inj {dtype dtype' : String} {shape shape' : List ℕ}
    {buffer buffer' : Option (List UInt8)} {fed fed' rest rest' : List UInt8}
    (h : ArrayFields dtype shape buffer fed) (h' : ArrayFields dtype' shape' buffer' fed')
    (heq : fed ++ rest = fed' ++ rest') :
    dtype = dtype' ∧ shape = shape' ∧ buffer = buffer' ∧ rest = rest' := by
  obtain ⟨_, _, view, _, hdtype, hshape, rfl, hview, rfl⟩ := h
  obtain ⟨_, _, view', _, hdtype', hshape', rfl, hview', rfl⟩ := h'
  simp only [List.append_assoc] at heq
  obtain ⟨rfl, heq⟩ := Text.prefixFree _ hdtype hdtype' heq
  obtain ⟨hjson, heq⟩ := Text.prefixFree _ hshape hshape' heq
  obtain rfl := jsonDumps_injective hjson
  obtain ⟨rfl, heq⟩ := LengthDelimited.prefixFree _ hview hview' heq
  exact ⟨rfl, rfl, rfl, heq⟩

theorem Colors.inj {image image' : PILImage} {fed fed' rest rest' : List UInt8}
    (hmode : image.mode = image'.mode) (h : Colors image fed) (h' : Colors image' fed')
    (heq : fed ++ rest = fed' ++ rest') :
    (image.indexed → image.rgba = image'.rgba) ∧ rest = rest' := by
  unfold Colors at h h'
  have hindexed : image.indexed ↔ image'.indexed := by
    unfold PILImage.indexed
    rw [hmode]
  by_cases hi : image.indexed
  · rw [if_pos hi] at h
    rw [if_pos (hindexed.mp hi)] at h'
    obtain ⟨view, hview, hfed⟩ := h
    obtain ⟨view', hview', hfed'⟩ := h'
    obtain ⟨rfl, hrest⟩ := LengthDelimited.prefixFree _ hfed hfed' heq
    exact ⟨fun _ => hview.trans hview'.symm, hrest⟩
  · rw [if_neg hi] at h
    rw [if_neg (fun hi' => hi (hindexed.mpr hi'))] at h'
    subst h h'
    exact ⟨fun hi' => absurd hi' hi, heq⟩

theorem SequenceKind.name_ne (kind : SequenceKind) {tag : String}
    (h : tag ∈ ["bytes", "file", "pil", "numpy", "torch"]) : kind.name ≠ tag := by
  rintro rfl
  cases kind <;> simp [SequenceKind.name] at h

theorem SequenceKind.name_injective : Function.Injective SequenceKind.name := by
  intro kind kind' h
  cases kind <;> cases kind' <;> first | rfl | exact absurd h (by decide)

/-- A supported value is read back off a stream up to its media content, by induction on
the nesting of sequences. The tag settles the type, so only pairs of one type remain. -/
theorem Fed.readsBack (value : MediaValue) : ReadsBack (SameMedia files) (Fed files) value := by
  induction value using MediaValue.itemInduction with | _ value ih
  intro value' fed fed' rest rest' h h' heq
  have htags := h.tag_eq h' heq
  cases h with
  | bytesLike htag hfed =>
    cases h' with
    | bytesLike htag' hfed' =>
      simp only [List.append_assoc] at heq
      obtain ⟨-, heq⟩ := Text.prefixFree _ htag htag' heq
      obtain ⟨rfl, heq⟩ := LengthDelimited.prefixFree _ hfed hfed' heq
      exact ⟨.bytesLike, heq⟩
    | sequence => exact absurd htags.symm (SequenceKind.name_ne _ (by simp [MediaValue.tag]))
    | _ => exact absurd htags (by simp [MediaValue.tag])
  | path htag hcontent hsuffix hlength =>
    cases h' with
    | path htag' hcontent' hsuffix' hlength' =>
      simp only [List.append_assoc] at heq
      obtain ⟨-, heq⟩ := Text.prefixFree _ htag htag' heq
      obtain ⟨hsuffixes, heq⟩ := Text.prefixFree _ hsuffix hsuffix' heq
      obtain ⟨hlengths, heq⟩ := Length.prefixFree _ hlength hlength' heq
      obtain ⟨rfl, hrest⟩ := List.append_inj heq hlengths
      exact ⟨.path hcontent hcontent' hsuffixes, hrest⟩
    | sequence => exact absurd htags.symm (SequenceKind.name_ne _ (by simp [MediaValue.tag]))
    | _ => exact absurd htags (by simp [MediaValue.tag])
  | image htag hfed =>
    cases h' with
    | image htag' hfed' =>
      obtain ⟨_, _, harray, hcolors, rfl⟩ := hfed
      obtain ⟨_, _, harray', hcolors', rfl⟩ := hfed'
      simp only [List.append_assoc] at heq
      obtain ⟨-, heq⟩ := Text.prefixFree _ htag htag' heq
      obtain ⟨hmode, hsize, htobytes, heq⟩ := harray.inj harray' heq
      obtain ⟨hrgba, heq⟩ := hcolors.inj hmode hcolors' heq
      simp only [List.cons.injEq, and_true] at hsize
      exact ⟨.image hmode (Prod.ext hsize.1 hsize.2) htobytes hrgba, heq⟩
    | sequence => exact absurd htags.symm (SequenceKind.name_ne _ (by simp [MediaValue.tag]))
    | _ => exact absurd htags (by simp [MediaValue.tag])
  | array htag hfed =>
    cases h' with
    | array htag' hfed' =>
      simp only [List.append_assoc] at heq
      obtain ⟨-, heq⟩ := Text.prefixFree _ htag htag' heq
      obtain ⟨hdtype, hshape, hbuffer, heq⟩ := hfed.inj hfed' heq
      exact ⟨.array hdtype hshape hbuffer, heq⟩
    | sequence => exact absurd htags.symm (SequenceKind.name_ne _ (by simp [MediaValue.tag]))
    | _ => exact absurd htags (by simp [MediaValue.tag])
  | @tensor tensor _ _ htag hfed =>
    cases h' with
    | @tensor tensor' _ _ htag' hfed' =>
      simp only [List.append_assoc] at heq
      obtain ⟨-, heq⟩ := Text.prefixFree _ htag htag' heq
      obtain ⟨hdtype, hshape, hbuffer, heq⟩ := hfed.inj hfed' heq
      have htensors : tensor = tensor' := by
        cases tensor
        cases tensor'
        simp_all
      exact ⟨htensors ▸ .tensor, heq⟩
    | sequence => exact absurd htags.symm (SequenceKind.name_ne _ (by simp [MediaValue.tag]))
    | _ => exact absurd htags (by simp [MediaValue.tag])
  | @sequence kind items _ _ _ htag hcount hitems =>
    cases h' with
    | @sequence kind' items' _ _ _ htag' hcount' hitems' =>
      simp only [List.append_assoc] at heq
      obtain ⟨-, heq⟩ := Text.prefixFree _ htag htag' heq
      obtain ⟨hcounts, heq⟩ := Length.prefixFree _ hcount hcount' heq
      obtain rfl := SequenceKind.name_injective htags
      obtain ⟨hsame, heq⟩ := ReadsBack.counted (ih kind items rfl) hitems hitems' hcounts heq
      exact ⟨.sequence hsame, heq⟩
    | _ => exact absurd htags (SequenceKind.name_ne _ (by simp [MediaValue.tag]))

/-! ## What a run feeds -/

/-- Values with a content: a path has to name a file, a sequence to hold such values. -/
inductive Supported (files : FileSystem) : MediaValue → Prop
  | bytesLike {kind buffer} : Supported files (.bytesLike kind buffer)
  | path {kind name content} (hcontent : files.content name = some content) :
      Supported files (.path kind name)
  | image {value} : Supported files (.image value)
  | array {value} : Supported files (.array value)
  | tensor {value} : Supported files (.tensor value)
  | sequence {kind items} (hitems : ∀ item ∈ items, Supported files item) :
      Supported files (.sequence kind items)

theorem Fed.supported {value : MediaValue} {fed : List UInt8} (h : Fed files value fed) :
    Supported files value := by
  induction value using MediaValue.itemInduction generalizing fed with | _ value ih
  cases h with
  | bytesLike => exact .bytesLike
  | path _ hcontent => exact .path hcontent
  | image => exact .image
  | array => exact .array
  | tensor => exact .tensor
  | sequence _ _ hitems =>
    refine .sequence fun item hitem => ?_
    obtain ⟨i, hi, rfl⟩ := List.mem_iff_getElem.mp hitem
    have hi' := hitems.length_eq ▸ hi
    exact ih _ _ rfl _ hitem (List.forall₂_iff_get.mp hitems |>.2 i hi hi')

/-- What a run says of the value it hashed. -/
def Outcome (files : FileSystem) (value : MediaValue) (hasher : List UInt8) (supported : Bool)
    (hasher' : List UInt8) : Prop :=
  if supported then ∃ fed, Fed files value fed ∧ hasher' = hasher ++ fed
  else ¬ Supported files value

def AllOutcome (files : FileSystem) (values : List MediaValue) (hasher : List UInt8)
    (supported : Bool) (hasher' : List UInt8) : Prop :=
  if supported then ∃ feds, List.Forall₂ (Fed files) values feds ∧ hasher' = hasher ++ feds.flatten
  else ∃ value ∈ values, ¬ Supported files value

theorem updateAll_outcome {values : List MediaValue}
    (h : ∀ value ∈ values, ∀ {hasher supported hasher'},
      updateContentHash files value hasher = .ok supported hasher' →
      Outcome files value hasher supported hasher')
    {supported : Bool} (hrun : updateAll files values hasher = .ok supported hasher') :
    AllOutcome files values hasher supported hasher' := by
  induction values generalizing hasher with
  | nil =>
    simp only [updateAll, pure_ok] at hrun
    obtain ⟨rfl, rfl⟩ := hrun
    exact ⟨[], .nil, (List.append_nil _).symm⟩
  | cons value values ih =>
    simp only [updateAll, bind_ok] at hrun
    obtain ⟨first, middle, hvalue, hrest⟩ := hrun
    have hfirst := h value List.mem_cons_self hvalue
    cases first with
    | false =>
      simp only [Bool.false_eq_true, if_false, pure_ok] at hrest
      obtain ⟨rfl, rfl⟩ := hrest
      exact ⟨value, List.mem_cons_self, hfirst⟩
    | true =>
      obtain ⟨fed, hfed, rfl⟩ := hfirst
      have hvalues := ih (fun value hmem => h value (List.mem_cons_of_mem _ hmem)) hrest
      cases supported with
      | false =>
        obtain ⟨value', hmem, hunsupported⟩ := hvalues
        exact ⟨value', List.mem_cons_of_mem _ hmem, hunsupported⟩
      | true =>
        obtain ⟨feds, hfeds, rfl⟩ := hvalues
        exact ⟨fed :: feds, .cons hfed hfeds, by rw [List.flatten_cons, List.append_assoc]⟩

/-- The three fields that arrays, tensors and images share. -/
theorem arrayFields_ok {dtype : String} {shape : List ℕ} {buffer : Option (List UInt8)}
    {h₁ h₂ : List UInt8} (hdtype : updateText dtype hasher = .ok () h₁)
    (hshape : updateText (jsonDumps shape) h₁ = .ok () h₂)
    (hbuffer : updateLengthDelimited buffer h₂ = .ok () hasher') :
    ∃ fed, ArrayFields dtype shape buffer fed ∧ hasher' = hasher ++ fed := by
  obtain ⟨dtypeFed, hdtypeFed, rfl⟩ := updateText_ok hdtype
  obtain ⟨shapeFed, hshapeFed, rfl⟩ := updateText_ok hshape
  obtain ⟨view, viewFed, hview, hviewFed, rfl⟩ := updateLengthDelimited_ok hbuffer
  refine ⟨_, ⟨dtypeFed, shapeFed, view, viewFed, hdtypeFed, hshapeFed, hview, hviewFed, rfl⟩, ?_⟩
  simp only [List.append_assoc]

theorem colors_ok {image : PILImage} {u : Unit}
    (h : when image.indexed (updateLengthDelimited image.rgba) hasher = .ok u hasher') :
    ∃ fed, Colors image fed ∧ hasher' = hasher ++ fed := by
  unfold Colors
  rcases when_ok.mp h with ⟨hindexed, hrun⟩ | ⟨hindexed, rfl⟩
  · obtain ⟨view, fed, hview, hfed, rfl⟩ := updateLengthDelimited_ok hrun
    exact ⟨fed, by rw [if_pos hindexed]; exact ⟨view, hview, hfed⟩, rfl⟩
  · exact ⟨[], by rw [if_neg hindexed], (List.append_nil _).symm⟩

theorem updateContentHash_outcome (value : MediaValue) {supported : Bool}
    (h : updateContentHash files value hasher = .ok supported hasher') :
    Outcome files value hasher supported hasher' := by
  induction value using MediaValue.itemInduction generalizing hasher supported hasher' with
  | _ value ih
  unfold updateContentHash at h
  cases value with
  | bytesLike kind buffer =>
    simp only [bind_ok, pure_ok] at h
    obtain ⟨_, _, htext, _, _, hbuffer, rfl, rfl⟩ := h
    obtain ⟨tag, htag, rfl⟩ := updateText_ok htext
    obtain ⟨view, fed, rfl, hfed, rfl⟩ := updateLengthDelimited_ok hbuffer
    exact ⟨_, .bytesLike htag hfed, List.append_assoc ..⟩
  | path kind name =>
    cases hcontent : files.content name with
    | none =>
      simp only [hcontent, pure_ok] at h
      obtain ⟨rfl, rfl⟩ := h
      rintro ⟨⟩
      simp_all
    | some content =>
      simp only [hcontent, update, bind_ok, pure_ok, modify_ok] at h
      obtain ⟨_, _, htext, _, _, hlower, _, _, hsize, _, _, rfl, rfl, rfl⟩ := h
      obtain ⟨tag, htag, rfl⟩ := updateText_ok htext
      obtain ⟨suffixFed, hsuffix, rfl⟩ := updateText_ok hlower
      obtain ⟨lengthFed, hlength, rfl⟩ := updateLength_ok hsize
      refine ⟨_, .path htag hcontent hsuffix hlength, ?_⟩
      simp only [List.append_assoc]
  | image value =>
    simp only [bind_ok, pure_ok] at h
    obtain ⟨_, _, htext, _, _, hmode, _, _, hsize, _, _, hbuffer, _, _, hrgba, rfl, rfl⟩ := h
    obtain ⟨tag, htag, rfl⟩ := updateText_ok htext
    obtain ⟨fed, hfed, rfl⟩ := arrayFields_ok hmode hsize hbuffer
    obtain ⟨colorsFed, hcolors, rfl⟩ := colors_ok hrgba
    refine ⟨_, .image htag ⟨fed, colorsFed, hfed, hcolors, rfl⟩, ?_⟩
    simp only [List.append_assoc]
  | array value =>
    simp only [bind_ok, pure_ok] at h
    obtain ⟨_, _, htext, _, _, hdtype, _, _, hshape, _, _, hbuffer, rfl, rfl⟩ := h
    obtain ⟨tag, htag, rfl⟩ := updateText_ok htext
    obtain ⟨fed, hfed, rfl⟩ := arrayFields_ok hdtype hshape hbuffer
    exact ⟨_, .array htag hfed, List.append_assoc ..⟩
  | tensor value =>
    simp only [bind_ok, pure_ok] at h
    obtain ⟨_, _, htext, _, _, hdtype, _, _, hshape, _, _, hbuffer, rfl, rfl⟩ := h
    obtain ⟨tag, htag, rfl⟩ := updateText_ok htext
    obtain ⟨fed, hfed, rfl⟩ := arrayFields_ok hdtype hshape hbuffer
    exact ⟨_, .tensor htag hfed, List.append_assoc ..⟩
  | sequence kind items =>
    simp only [bind_ok] at h
    obtain ⟨_, _, htext, _, _, hlength, hitems⟩ := h
    obtain ⟨tag, htag, rfl⟩ := updateText_ok htext
    obtain ⟨countFed, hcount, rfl⟩ := updateLength_ok hlength
    have hall := updateAll_outcome (fun item hitem => ih kind items rfl item hitem) hitems
    cases supported with
    | false =>
      obtain ⟨item, hitem, hunsupported⟩ := hall
      rintro ⟨⟩
      simp_all
    | true =>
      obtain ⟨feds, hfeds, rfl⟩ := hall
      refine ⟨_, .sequence htag hcount hfeds, ?_⟩
      simp only [List.append_assoc]
  | other typeName =>
    obtain ⟨rfl, rfl⟩ := pure_ok.mp h
    rintro ⟨⟩

/-! ## Fingerprints -/

theorem Fed.of_run {value : MediaValue} {fed : List UInt8}
    (h : updateContentHash files value hasher = .ok true (hasher ++ fed)) :
    Fed files value fed := by
  obtain ⟨fed', hfed, heq⟩ := updateContentHash_outcome value h
  rwa [List.append_cancel_left heq]

theorem Fed.all_of_run {values : List MediaValue} {fed : List UInt8}
    (h : updateAll files values hasher = .ok true (hasher ++ fed)) :
    ∃ feds, List.Forall₂ (Fed files) values feds ∧ fed = feds.flatten := by
  obtain ⟨feds, hfeds, heq⟩ := updateAll_outcome (fun _ _ => updateContentHash_outcome _) h
  exact ⟨feds, hfeds, List.append_cancel_left heq⟩

/-- Streams of supported values are equal only item by item. -/
theorem sameMedia_of_flatten {values values' : List MediaValue} {feds feds' : List (List UInt8)}
    (hfeds : List.Forall₂ (Fed files) values feds)
    (hfeds' : List.Forall₂ (Fed files) values' feds') (heq : feds.flatten = feds'.flatten) :
    List.Forall₂ (SameMedia files) values values' :=
  PrefixFree.stream Fed.readsBack Fed.ne_nil hfeds hfeds' heq

variable {δ : Type} {sha256 : List UInt8 → δ}

theorem contentFingerprint_some {values : List MediaValue} {digest : δ}
    (h : contentFingerprint files sha256 values = .ok (some digest)) :
    ∃ stream, fingerprintHasher files values [] = .ok true stream ∧ digest = sha256 stream := by
  unfold contentFingerprint at h
  split at h
  · next stream hstream =>
    simp only [Except.ok.injEq, Option.some.injEq] at h
    exact ⟨stream, hstream, h.symm⟩
  · simp at h
  · simp at h

theorem contentFingerprint_none {values : List MediaValue}
    (h : contentFingerprint files sha256 values = .ok none) :
    ∃ stream, fingerprintHasher files values [] = .ok false stream := by
  unfold contentFingerprint at h
  split at h
  · simp at h
  · next stream hstream => exact ⟨stream, hstream⟩
  · simp at h

theorem fingerprintHasher_outcome {values : List MediaValue} {supported : Bool}
    {stream : List UInt8} (h : fingerprintHasher files values [] = .ok supported stream) :
    ∃ schema, Text MEDIA_CACHE_KEY_SCHEMA schema ∧
      AllOutcome files values schema supported stream := by
  simp only [fingerprintHasher, bind_ok] at h
  obtain ⟨_, schema, htext, hall⟩ := h
  obtain ⟨_, hschema, heq⟩ := updateText_ok htext
  rw [List.nil_append] at heq
  subst heq
  exact ⟨_, hschema, updateAll_outcome (fun _ _ => updateContentHash_outcome _) hall⟩

/-- The stream of one value is read back off any longer stream up to the media content, a
list of values cannot be split another way, and so fingerprints that a digest does not
confuse belong to the same content. A value that is not supported gets no fingerprint. -/
theorem contentFingerprint_separates {files : FileSystem} {sha256 : List UInt8 → δ} :
    (∀ value value' hasher hasher' fed fed' rest rest',
      updateContentHash files value hasher = .ok true (hasher ++ fed) →
      updateContentHash files value' hasher' = .ok true (hasher' ++ fed') →
      fed ++ rest = fed' ++ rest' → SameMedia files value value' ∧ rest = rest') ∧
    (∀ values values' hasher hasher' fed,
      updateAll files values hasher = .ok true (hasher ++ fed) →
      updateAll files values' hasher' = .ok true (hasher' ++ fed) →
      List.Forall₂ (SameMedia files) values values') ∧
    (∀ values values' digest,
      Set.InjOn sha256 {stream | fingerprintHasher files values [] = .ok true stream ∨
        fingerprintHasher files values' [] = .ok true stream} →
      contentFingerprint files sha256 values = .ok (some digest) →
      contentFingerprint files sha256 values' = .ok (some digest) →
      List.Forall₂ (SameMedia files) values values') ∧
    ∀ values fingerprint, contentFingerprint files sha256 values = .ok fingerprint →
      (fingerprint = none ↔ ∃ value ∈ values, ¬ Supported files value) := by
  refine ⟨?_, ?_, ?_, ?_⟩
  · intro value value' hasher hasher' fed fed' rest rest' h h' heq
    exact Fed.readsBack value (Fed.of_run h) (Fed.of_run h') heq
  · intro values values' hasher hasher' fed h h'
    obtain ⟨feds, hfeds, rfl⟩ := Fed.all_of_run h
    obtain ⟨feds', hfeds', heq⟩ := Fed.all_of_run h'
    exact sameMedia_of_flatten hfeds hfeds' heq
  · intro values values' digest hinj h h'
    obtain ⟨stream, hstream, hdigest⟩ := contentFingerprint_some h
    obtain ⟨stream', hstream', hdigest'⟩ := contentFingerprint_some h'
    have heq := hinj (.inl hstream) (.inr hstream') (hdigest.symm.trans hdigest')
    subst heq
    obtain ⟨schema, hschema, feds, hfeds, hfed⟩ := fingerprintHasher_outcome hstream
    obtain ⟨schema', hschema', feds', hfeds', hfed'⟩ := fingerprintHasher_outcome hstream'
    rw [hfed'] at hfed
    exact sameMedia_of_flatten hfeds hfeds' (Text.prefixFree _ hschema' hschema hfed).2.symm
  · intro values fingerprint h
    cases fingerprint with
    | none =>
      obtain ⟨stream, hstream⟩ := contentFingerprint_none h
      obtain ⟨_, _, hunsupported⟩ := fingerprintHasher_outcome hstream
      exact ⟨fun _ => hunsupported, fun _ => rfl⟩
    | some digest =>
      obtain ⟨stream, hstream, -⟩ := contentFingerprint_some h
      obtain ⟨_, _, feds, hfeds, -⟩ := fingerprintHasher_outcome hstream
      refine ⟨fun hnone => (Option.some_ne_none _ hnone).elim, ?_⟩
      rintro ⟨value, hvalue, hunsupported⟩
      obtain ⟨i, hi, rfl⟩ := List.mem_iff_getElem.mp hvalue
      have hfed := (List.forall₂_iff_get.mp hfeds).2 i hi (hfeds.length_eq ▸ hi)
      exact absurd hfed.supported hunsupported

/-- Two files of one content, and nothing else. -/
def twoFiles : FileSystem where
  content name := if name = "a.png" ∨ name = "b.png" then some [137, 80] else none
  suffix _ := ".png"

theorem contentFingerprint_separates_nested :
    List.Forall₂ (SameMedia twoFiles)
      [.sequence .tuple [.path .str "a.png", .array ⟨"<f4", [1], some [0, 0, 128, 63]⟩]]
      [.sequence .tuple [.path .path "b.png", .array ⟨"<f4", [1], some [0, 0, 128, 63]⟩]] :=
  (@contentFingerprint_separates (List UInt8) twoFiles id).2.2.1 _ _ _
    Function.injective_id.injOn rfl rfl

/-- Strings stand for the files they name and buffers for their bytes, whatever their type;
numbers and mappings have no content. -/
theorem equal_streams_of_other_types :
    (∃ stream, updateContentHash twoFiles (.path .str "a.png") [] = .ok true stream ∧
      updateContentHash twoFiles (.path .str "b.png") [] = .ok true stream) ∧
    (∃ stream, updateContentHash twoFiles (.bytesLike .bytes (some [1])) [] = .ok true stream ∧
      updateContentHash twoFiles (.bytesLike .bytearray (some [1])) [] = .ok true stream) ∧
    contentFingerprint twoFiles id [.other "int"] = .ok none ∧
    contentFingerprint twoFiles id [.other "dict"] = .ok none :=
  ⟨⟨_, rfl, rfl⟩, ⟨_, rfl, rfl⟩, rfl, rfl⟩

end PrismInfer
