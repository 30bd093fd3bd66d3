import PrismInfer.BlockManager
import PrismInfer.Lib.FixedBytes
import PrismInfer.Lib.HashChain
import PrismInfer.Lib.RecentUse

/-!
# The bytes under a block hash

`compute_hash` feeds xxh64 the digest of the previous block, the token ids and the sorted
media records of one block, without delimiters. The digest function is a parameter; it
returns 64 bits, `intdigest` reads them as a natural number.
-/
namespace PrismInfer
open StateExcept FixedBytes HashChain

inductive HashError
  /-- `int.to_bytes`: the value does not fit `width` bytes. -/
  | intTooBig (width : ℕ) (value : ℤ)
  /-- `np.asarray`: a token id outside int64. -/
  | tokenOutsideInt64 (tokenId : ℤ)
deriving DecidableEq, Repr

/-- `value.to_bytes(width, "little")`. -/
def toBytes (width : ℕ) (value : ℤ) : Except HashError (List UInt8) := do
  ensure (0 ≤ value ∧ value < 256 ^ width) (.intTooBig width value)
  pure (bytesLE width value.toNat)

/-- One element of an int64 array, in two's complement. -/
def int64Bytes (tokenId : ℤ) : Except HashError (List UInt8) := do
  ensure (-2 ^ 63 ≤ tokenId ∧ tokenId < 2 ^ 63) (.tokenOutsideInt64 tokenId)
  pure (bytesLE 8 (tokenId % 2 ^ 64).toNat)

/-- The media items of a block by position. The positions are keys, so no lookup misses. -/
def sortedRecords (mmTokenHashes : OrderedDict ℤ ℤ) : List (ℤ × ℤ) :=
  ((mmTokenHashes.map (·.1)).mergeSort (· ≤ ·)).map fun position =>
    (position, (mmTokenHashes.get? position).getD 0)

def recordBytes (item : ℤ × ℤ) : Except HashError (List UInt8) := do
  let position ← toBytes 4 item.1
  let mediaHash ← toBytes 8 item.2
  pure (position ++ mediaHash)

namespace ChainHash

def NO_BLOCK_HASH : ℤ := -1

def parentBytes (prefixHash : ℤ) : Except HashError (List UInt8) :=
  if prefixHash ≠ NO_BLOCK_HASH then toBytes 8 prefixHash else pure []

/-- `if mm_token_hashes:` skips `None` and the empty map. -/
def mediaBytes : Option (OrderedDict ℤ ℤ) → Except HashError (List (List UInt8))
  | none => pure []
  | some media => if media = [] then pure [] else (sortedRecords media).mapM recordBytes

/-- What `compute_hash` feeds the digest, in the order of its `update` calls. -/
def hashedBytes (tokenIds : List ℤ) (prefixHash : ℤ)
    (mmTokenHashes : Option (OrderedDict ℤ ℤ)) : Except HashError (List UInt8) := do
  let parent ← parentBytes prefixHash
  let tokens ← tokenIds.mapM int64Bytes
  let media ← mediaBytes mmTokenHashes
  pure (parent ++ tokens.flatten ++ media.flatten)

def computeHash (xxh64 : List UInt8 → UInt64) (tokenIds : List ℤ) (prefixHash : ℤ)
    (mmTokenHashes : Option (OrderedDict ℤ ℤ)) : Except HashError ℤ := do
  let bytes ← hashedBytes tokenIds prefixHash mmTokenHashes
  pure (xxh64 bytes).toNat

/-- One full block: its token ids and its media hashes by block-local position. -/
structure FullBlock (blockSize : ℕ) where
  tokenIds : List ℤ
  full : tokenIds.length = blockSize
  mmTokenHashes : Option (OrderedDict ℤ ℤ)

namespace FullBlock

variable {blockSize : ℕ}

/-- The media hash at a position; a block without a map has none. -/
def mediaAt (block : FullBlock blockSize) (position : ℤ) : Option ℤ :=
  (block.mmTokenHashes.getD []).get? position

/-- Equal token ids and equal media maps. -/
def Same (block other : FullBlock blockSize) : Prop :=
  block.tokenIds = other.tokenIds ∧ block.mediaAt = other.mediaAt

end FullBlock

variable {blockSize : ℕ}

/-- The digest of the last of some blocks, each chained to the one before it. -/
def chainHash (xxh64 : List UInt8 → UInt64) (prefixHash : ℤ) :
    List (FullBlock blockSize) → Except HashError ℤ
  | [] => pure prefixHash
  | block :: blocks => do
    let blockHash ← computeHash xxh64 block.tokenIds prefixHash block.mmTokenHashes
    chainHash xxh64 blockHash blocks

/-- The byte strings `chainHash` gives the digest. -/
def given (xxh64 : List UInt8 → UInt64) (prefixHash : ℤ) :
    List (FullBlock blockSize) → List (List UInt8)
  | [] => []
  | block :: blocks =>
    match hashedBytes block.tokenIds prefixHash block.mmTokenHashes with
    | .error _ => []
    | .ok bytes => bytes :: given xxh64 (xxh64 bytes).toNat blocks

/-! ### Fields of fixed width -/

theorem toBytes_ok {width : ℕ} {value : ℤ} {bytes : List UInt8} :
    toBytes width value = .ok bytes ↔
      (0 ≤ value ∧ value < 256 ^ width) ∧ bytesLE width value.toNat = bytes := by
  simp only [toBytes, except_bind_ok, ensure_ok, except_pure_ok, exists_const]

theorem toBytes_length {width : ℕ} {value : ℤ} {bytes : List UInt8}
    (h : toBytes width value = .ok bytes) : bytes.length = width := by
  rw [toBytes_ok] at h
  rw [← h.2, length_bytesLE]

theorem toBytes_injective {width : ℕ} {value value' : ℤ} {bytes : List UInt8}
    (h : toBytes width value = .ok bytes) (h' : toBytes width value' = .ok bytes) :
    value = value' := by
  rw [toBytes_ok] at h h'
  obtain ⟨⟨hnonneg, hlt⟩, hbytes⟩ := h
  obtain ⟨⟨hnonneg', hlt'⟩, hbytes'⟩ := h'
  have hnat : ∀ v : ℤ, 0 ≤ v → v < 256 ^ width → v.toNat < 256 ^ width := by
    intro v hv hlt
    zify
    rw [Int.toNat_of_nonneg hv]
    exact hlt
  have := bytesLE_injOn (hnat value hnonneg hlt) (hnat value' hnonneg' hlt')
    (hbytes.trans hbytes'.symm)
  omega

theorem int64Bytes_length {tokenId : ℤ} {bytes : List UInt8}
    (h : int64Bytes tokenId = .ok bytes) : bytes.length = 8 := by
  simp only [int64Bytes, except_bind_ok, ensure_ok, except_pure_ok, exists_const] at h
  rw [← h.2, length_bytesLE]

theorem int64Bytes_injective {tokenId tokenId' : ℤ} {bytes : List UInt8}
    (h : int64Bytes tokenId = .ok bytes) (h' : int64Bytes tokenId' = .ok bytes) :
    tokenId = tokenId' := by
  simp only [int64Bytes, except_bind_ok, ensure_ok, except_pure_ok, exists_const] at h h'
  obtain ⟨⟨hlow, hhigh⟩, hbytes⟩ := h
  obtain ⟨⟨hlow', hhigh'⟩, hbytes'⟩ := h'
  have := bytesLE_injOn (by omega) (by omega) (hbytes.trans hbytes'.symm)
  omega

theorem recordBytes_length {item : ℤ × ℤ} {bytes : List UInt8}
    (h : recordBytes item = .ok bytes) : bytes.length = 12 := by
  simp only [recordBytes, except_bind_ok, except_pure_ok] at h
  obtain ⟨position, hposition, media, hmedia, rfl⟩ := h
  rw [List.length_append, toBytes_length hposition, toBytes_length hmedia]

theorem recordBytes_injective {item item' : ℤ × ℤ} {bytes : List UInt8}
    (h : recordBytes item = .ok bytes) (h' : recordBytes item' = .ok bytes) : item = item' := by
  simp only [recordBytes, except_bind_ok, except_pure_ok] at h h'
  obtain ⟨position, hposition, media, hmedia, rfl⟩ := h
  obtain ⟨position', hposition', media', hmedia', heq⟩ := h'
  have hlength : position'.length = position.length := by
    rw [toBytes_length hposition, toBytes_length hposition']
  obtain ⟨rfl, rfl⟩ := List.append_inj heq hlength
  exact Prod.ext (toBytes_injective hposition hposition') (toBytes_injective hmedia hmedia')

section Stream

variable {α : Type} {field : α → Except HashError (List UInt8)} {width : ℕ}
  {items items' : List α} {fields fields' : List (List UInt8)}

theorem stream_width (hlength : ∀ {a bytes}, field a = .ok bytes → bytes.length = width)
    (h : items.mapM field = .ok fields) : ∀ bytes ∈ fields, bytes.length = width := by
  rw [mapM_ok] at h
  induction h with
  | nil => simp
  | cons ha _ ih =>
    intro bytes hbytes
    rcases List.mem_cons.mp hbytes with rfl | hbytes
    · exact hlength ha
    · exact ih bytes hbytes

theorem stream_length (hlength : ∀ {a bytes}, field a = .ok bytes → bytes.length = width)
    (h : items.mapM field = .ok fields) : fields.flatten.length = width * items.length := by
  rw [length_flatten_of_width (stream_width hlength h), (mapM_ok.mp h).length_eq]

theorem stream_injective (hwidth : 0 < width)
    (hlength : ∀ {a bytes}, field a = .ok bytes → bytes.length = width)
    (hinj : ∀ {a a' bytes}, field a = .ok bytes → field a' = .ok bytes → a = a')
    (h : items.mapM field = .ok fields) (h' : items'.mapM field = .ok fields')
    (heq : fields.flatten = fields'.flatten) : items = items' := by
  have hfields := flatten_injOn hwidth (stream_width hlength h) (stream_width hlength h') heq
  subst hfields
  rw [mapM_ok] at h h'
  clear heq
  induction h generalizing items' with
  | nil => cases h' with | nil => rfl
  | cons ha _ ih =>
    cases h' with
    | cons ha' hrest =>
      rw [hinj ha ha', ih hrest]

end Stream

/-! ### One input -/

/-- The media records of a block. -/
def records (mmTokenHashes : Option (OrderedDict ℤ ℤ)) : List (ℤ × ℤ) :=
  sortedRecords (mmTokenHashes.getD [])

theorem records_eq_nil {mmTokenHashes : Option (OrderedDict ℤ ℤ)}
    (h : mmTokenHashes.getD [] = []) : records mmTokenHashes = [] := by
  rw [records, h, sortedRecords, List.map_nil, List.mergeSort_nil, List.map_nil]

theorem hashedBytes_ok {tokenIds : List ℤ} {prefixHash : ℤ}
    {mmTokenHashes : Option (OrderedDict ℤ ℤ)} {bytes : List UInt8}
    (h : hashedBytes tokenIds prefixHash mmTokenHashes = .ok bytes) :
    ∃ parent tokens media,
      (prefixHash = NO_BLOCK_HASH ∧ parent = [] ∨
        prefixHash ≠ NO_BLOCK_HASH ∧ toBytes 8 prefixHash = .ok parent) ∧
      tokenIds.mapM int64Bytes = .ok tokens ∧
      (records mmTokenHashes).mapM recordBytes = .ok media ∧
      bytes = parent ++ tokens.flatten ++ media.flatten := by
  simp only [hashedBytes, except_bind_ok, except_pure_ok] at h
  obtain ⟨parent, hparent, tokens, htokens, media, hmedia, rfl⟩ := h
  refine ⟨parent, tokens, media, ?_, htokens, ?_, rfl⟩
  · rw [parentBytes] at hparent
    split at hparent
    · next hne => exact .inr ⟨hne, hparent⟩
    · next heq =>
      rw [except_pure_ok] at hparent
      exact .inl ⟨not_not.mp heq, hparent.symm⟩
  · cases mmTokenHashes with
    | none =>
      rw [records_eq_nil rfl]
      exact hmedia
    | some dict =>
      rw [mediaBytes] at hmedia
      split at hmedia
      · next hnil =>
        rw [records_eq_nil (show (some dict).getD [] = [] from hnil)]
        exact hmedia
      · exact hmedia

theorem toOption_eq_some {ε α : Type} {x : Except ε α} {a : α} :
    x.toOption = some a ↔ x = .ok a := by
  cases x <;> simp [Except.toOption]

theorem sortedRecords_lookup {media media' : OrderedDict ℤ ℤ}
    (h : sortedRecords media = sortedRecords media') (position : ℤ) (value : ℤ)
    (hget : media.get? position = some value) : media'.get? position = some value := by
  have hmem : (position, value) ∈ sortedRecords media := by
    refine List.mem_map.mpr ⟨position, ?_, by rw [hget, Option.getD_some]⟩
    rw [List.mem_mergeSort]
    exact List.mem_map.mpr ⟨_, OrderedDict.mem_of_get? hget, rfl⟩
  rw [h] at hmem
  obtain ⟨position', hposition, heq⟩ := List.mem_map.mp hmem
  rw [Prod.mk.injEq] at heq
  obtain ⟨rfl, hvalue⟩ := heq
  rw [List.mem_mergeSort] at hposition
  cases hget' : media'.get? position' with
  | none => exact absurd hposition (OrderedDict.get?_eq_none.mp hget')
  | some value' => rw [← hvalue, hget', Option.getD_some]

theorem sortedRecords_injective {media media' : OrderedDict ℤ ℤ}
    (h : sortedRecords media = sortedRecords media') : media.get? = media'.get? := by
  funext position
  cases hget : media.get? position with
  | some value => exact (sortedRecords_lookup h position value hget).symm
  | none =>
    cases hget' : media'.get? position with
    | none => rfl
    | some value =>
      rw [sortedRecords_lookup h.symm position value hget'] at hget
      exact absurd hget (by simp)

/-- The lengths of two inputs of one block size tell the number of records and the presence
of a parent: 8 bytes of parent never make up for records of 12. -/
theorem hashedBytes_injective {block block' : FullBlock blockSize} {prefixHash prefixHash' : ℤ}
    {bytes : List UInt8}
    (h : hashedBytes block.tokenIds prefixHash block.mmTokenHashes = .ok bytes)
    (h' : hashedBytes block'.tokenIds prefixHash' block'.mmTokenHashes = .ok bytes) :
    prefixHash = prefixHash' ∧ block.Same block' := by
  obtain ⟨parent, tokens, media, hparent, htokens, hmedia, rfl⟩ := hashedBytes_ok h
  obtain ⟨parent', tokens', media', hparent', htokens', hmedia', heq⟩ := hashedBytes_ok h'
  have htokensLength : tokens.flatten.length = tokens'.flatten.length := by
    rw [stream_length int64Bytes_length htokens, stream_length int64Bytes_length htokens',
      block.full, block'.full]
  have hmediaLength := stream_length recordBytes_length hmedia
  have hmediaLength' := stream_length recordBytes_length hmedia'
  have hlength := congrArg List.length heq
  simp only [List.length_append] at hlength
  have hparentLength : parent.length = parent'.length := by
    have hwidth : ∀ {p q}, (p = NO_BLOCK_HASH ∧ q = [] ∨
        p ≠ NO_BLOCK_HASH ∧ toBytes 8 p = .ok q) → q.length = 0 ∨ q.length = 8 := by
      rintro p q (⟨_, rfl⟩ | ⟨_, hp⟩)
      · exact .inl rfl
      · exact .inr (toBytes_length hp)
    have := hwidth hparent
    have := hwidth hparent'
    omega
  obtain ⟨hfront, hmediaEq⟩ := List.append_inj heq (by simp only [List.length_append]; omega)
  obtain ⟨rfl, htokensEq⟩ := List.append_inj hfront hparentLength
  refine ⟨?_, ?_, ?_⟩
  · rcases hparent with ⟨hp, rfl⟩ | ⟨_, hp⟩ <;> rcases hparent' with ⟨hp', hnil⟩ | ⟨_, hp'⟩
    · rw [hp, hp']
    · exact absurd (toBytes_length hp') (by simp)
    · exact absurd (toBytes_length hp) (by simp [hnil])
    · exact toBytes_injective hp hp'
  · exact stream_injective (by omega) int64Bytes_length int64Bytes_injective htokens htokens'
      htokensEq
  · exact sortedRecords_injective (stream_injective (by omega) recordBytes_length
      recordBytes_injective hmedia hmedia' hmediaEq)

/-! ### Chains -/

theorem chainHash_cons {xxh64 : List UInt8 → UInt64} {prefixHash : ℤ}
    {block : FullBlock blockSize} {blocks : List (FullBlock blockSize)} {bytes : List UInt8}
    (h : hashedBytes block.tokenIds prefixHash block.mmTokenHashes = .ok bytes) :
    chainHash xxh64 prefixHash (block :: blocks) =
        chainHash xxh64 (xxh64 bytes).toNat blocks ∧
      given xxh64 prefixHash (block :: blocks) =
        bytes :: given xxh64 (xxh64 bytes).toNat blocks := by
  constructor
  · rw [chainHash, computeHash, h]
    rfl
  · rw [given, h]

theorem chainHash_chain {xxh64 : List UInt8 → UInt64} {start digest blockHash : ℤ}
    {earlier blocks : List (FullBlock blockSize)} {inputs : List (List UInt8)}
    (hchain : Chain (fun digest block =>
        (hashedBytes block.tokenIds digest block.mmTokenHashes).toOption)
      (fun bytes => ((xxh64 bytes).toNat : ℤ)) start earlier inputs digest)
    (h : chainHash xxh64 digest blocks = .ok blockHash) :
    Chain (fun digest block => (hashedBytes block.tokenIds digest block.mmTokenHashes).toOption)
      (fun bytes => ((xxh64 bytes).toNat : ℤ)) start (earlier ++ blocks)
      (inputs ++ given xxh64 digest blocks) blockHash := by
  induction blocks generalizing earlier inputs digest with
  | nil =>
    rw [chainHash, except_pure_ok] at h
    subst h
    simpa [given] using hchain
  | cons block blocks ih =>
    simp only [chainHash, computeHash, except_bind_ok, except_pure_ok] at h
    obtain ⟨_, ⟨bytes, hbytes, rfl⟩, hrest⟩ := h
    have := ih (hchain.snoc (by rw [hbytes]; rfl)) hrest
    rw [(chainHash_cons hbytes).2]
    simpa using this

/-- Chains of full blocks with equal last hashes are equal block by block, where xxh64 is
injective on the byte strings the two chains give it. -/
theorem chainHash_separates (xxh64 : List UInt8 → UInt64) (blockSize : ℕ)
    (blocks blocks' : List (FullBlock blockSize)) (blockHash : ℤ)
    (hinj : Set.InjOn xxh64 {bytes | bytes ∈ given xxh64 NO_BLOCK_HASH blocks ∨
      bytes ∈ given xxh64 NO_BLOCK_HASH blocks'})
    (h : chainHash xxh64 NO_BLOCK_HASH blocks = .ok blockHash)
    (h' : chainHash xxh64 NO_BLOCK_HASH blocks' = .ok blockHash) :
    List.Forall₂ FullBlock.Same blocks blocks' := by
  refine Chain.injective ?_ ?_ (chainHash_chain .nil h) (chainHash_chain .nil h') ?_ rfl
  · intro bytes
    simp only [NO_BLOCK_HASH]
    omega
  · intro digest digest' block block' bytes hbytes hbytes'
    exact hashedBytes_injective (toOption_eq_some.mp hbytes) (toOption_eq_some.mp hbytes')
  · intro bytes hbytes bytes' hbytes' heq
    simp only [List.nil_append] at hbytes hbytes'
    apply hinj hbytes hbytes'
    apply UInt64.toNat_inj.mp
    simp only at heq
    exact_mod_cast heq

/-! ### A chain under the digest itself -/

section Example

def rotateLeft (x count : UInt64) : UInt64 := (x <<< count) ||| (x >>> (64 - count))

def readLE (bytes : List UInt8) : UInt64 :=
  bytes.foldr (fun byte value => value * 256 + byte.toUInt64) 0

/-- XXH64 with seed 0 after its stripes: words of 8 and 4 bytes, then single bytes. -/
def tail64 : List UInt8 → UInt64 → UInt64
  | b₀ :: b₁ :: b₂ :: b₃ :: b₄ :: b₅ :: b₆ :: b₇ :: bytes, h =>
    let word := readLE [b₀, b₁, b₂, b₃, b₄, b₅, b₆, b₇]
    let lane := rotateLeft (word * 0xC2B2AE3D27D4EB4F) 31 * 0x9E3779B185EBCA87
    tail64 bytes (rotateLeft (h ^^^ lane) 27 * 0x9E3779B185EBCA87 + 0x85EBCA77C2B2AE63)
  | b₀ :: b₁ :: b₂ :: b₃ :: bytes, h =>
    let word := readLE [b₀, b₁, b₂, b₃]
    tail64 bytes (rotateLeft (h ^^^ (word * 0x9E3779B185EBCA87)) 23 * 0xC2B2AE3D27D4EB4F +
      0x165667B19E3779F9)
  | byte :: bytes, h =>
    tail64 bytes (rotateLeft (h ^^^ (byte.toUInt64 * 0x27D4EB2F165667C5)) 11 *
      0x9E3779B185EBCA87)
  | [], h => h

/-- XXH64 of fewer than 32 bytes. -/
def shortXxh64 (bytes : List UInt8) : UInt64 :=
  let h := tail64 bytes (0x27D4EB2F165667C5 + UInt64.ofNat bytes.length)
  let h := (h ^^^ (h >>> 33)) * 0xC2B2AE3D27D4EB4F
  let h := (h ^^^ (h >>> 29)) * 0x165667B19E3779F9
  h ^^^ (h >>> 32)

example : shortXxh64 [97, 98, 99] = 0x44BC2CF5AD770999 := by decide

def textBlock : FullBlock 1 := ⟨[7], rfl, none⟩

def emptyMapBlock : FullBlock 1 := ⟨[7], rfl, some []⟩

def imageBlock : FullBlock 1 := ⟨[5], rfl, some [(0, 17)]⟩

def textBytes : List UInt8 := [7, 0, 0, 0, 0, 0, 0, 0]

def imageBytes : List UInt8 :=
  bytesLE 8 (shortXxh64 textBytes).toNat ++
    [5, 0, 0, 0, 0, 0, 0, 0, 0, 0, 0, 0, 17, 0, 0, 0, 0, 0, 0, 0]

theorem hashedBytes_imageBlock :
    hashedBytes imageBlock.tokenIds (shortXxh64 textBytes).toNat imageBlock.mmTokenHashes =
      .ok imageBytes := by
  have hsort : sortedRecords [(0, 17)] = [(0, 17)] := by
    rw [sortedRecords, List.map_singleton, List.mergeSort_singleton]
    rfl
  rw [hashedBytes, imageBlock, mediaBytes, hsort]
  decide

theorem chainHash_image (first : FullBlock 1)
    (h : hashedBytes first.tokenIds NO_BLOCK_HASH first.mmTokenHashes = .ok textBytes) :
    chainHash shortXxh64 NO_BLOCK_HASH [first, imageBlock] =
        .ok ((shortXxh64 imageBytes).toNat : ℤ) ∧
      given shortXxh64 NO_BLOCK_HASH [first, imageBlock] = [textBytes, imageBytes] := by
  rw [(chainHash_cons h).1, (chainHash_cons h).2, (chainHash_cons hashedBytes_imageBlock).1,
    (chainHash_cons hashedBytes_imageBlock).2]
  exact ⟨rfl, rfl⟩

/-- A text block and an image block behind it, with an empty map for the text block in the
other chain. -/
theorem chainHash_separates_two :
    chainHash shortXxh64 NO_BLOCK_HASH [textBlock, imageBlock] =
        .ok ((shortXxh64 imageBytes).toNat : ℤ) ∧
      List.Forall₂ FullBlock.Same [textBlock, imageBlock] [emptyMapBlock, imageBlock] := by
  have htext := chainHash_image textBlock rfl
  have hempty := chainHash_image emptyMapBlock rfl
  have hne : shortXxh64 textBytes ≠ shortXxh64 imageBytes := by decide
  refine ⟨htext.1, chainHash_separates shortXxh64 1 _ _ _ ?_ htext.1 hempty.1⟩
  rw [htext.2, hempty.2]
  intro bytes hbytes bytes' hbytes' heq
  simp only [List.mem_cons, List.not_mem_nil, or_false, or_self, Set.mem_ofPred_eq]
    at hbytes hbytes'
  rcases hbytes with rfl | rfl <;> rcases hbytes' with rfl | rfl
  · rfl
  · exact absurd heq hne
  · exact absurd heq.symm hne
  · rfl

end Example

end ChainHash

end PrismInfer
