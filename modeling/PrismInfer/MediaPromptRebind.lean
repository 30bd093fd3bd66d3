import PrismInfer.Lib.TextEdit
import Mathlib.Data.List.Count

/-!
# Cached media under a new question

`_rebind_cached_media_prompt` replaces the question in the rendered text of a processed
request and retokenizes, so that only the ids change. Texts are lists of characters. The
tokenizer and the processor that expands visual placeholders are parameters.
-/
namespace PrismInfer
open TextEdit

/-- `ImageInputs` or `VideoInputs` of one request; `media` stands for the pixel tensor and
the grid. -/
structure MediaInputs (μ : Type) where
  inputIds : List ℤ
  attentionMask : List ℤ
  media : μ
  imageTokenId : Option ℤ
  videoTokenId : Option ℤ
  /-- Visual tokens in `inputIds`. -/
  tokenCount : ℕ
  expectedTokens : ℕ
  promptText : List Char
deriving DecidableEq, Repr

/-- The fields of `_MediaPreprocessCacheEntry` that rebinding reads. -/
structure MediaPreprocessCacheEntry (μ : Type) where
  inputs : MediaInputs μ
  prompt : List Char
deriving DecidableEq, Repr

/-- The token ids of a rebound prompt, from those of both template texts and the expanded
ids of the cached one. -/
def reboundIds (visualTokenId : Option ℤ) (oldTemplateIds newTemplateIds expandedIds : List ℤ) :
    Option (List ℤ) :=
  let commonPrefix := commonPrefix oldTemplateIds newTemplateIds
  let maxSuffix := min (oldTemplateIds.length - commonPrefix) (newTemplateIds.length - commonPrefix)
  let commonSuffix := commonSuffix maxSuffix oldTemplateIds newTemplateIds
  let placeholderPositions := (List.range oldTemplateIds.length).filter fun index =>
    oldTemplateIds[index]? = visualTokenId ∧ visualTokenId ≠ none
  match placeholderPositions.getLast? with
  | none => none
  | some lastPlaceholder =>
    if commonPrefix ≤ lastPlaceholder then none else
    let expansionOffset : ℤ := expandedIds.length - oldTemplateIds.length
    let replaceStart := commonPrefix + expansionOffset
    let replaceEnd : ℤ := expandedIds.length - commonSuffix
    if ¬ (0 ≤ replaceStart ∧ replaceStart ≤ replaceEnd ∧ replaceEnd ≤ expandedIds.length) then none
    else
    if commonSuffix ≠ 0 ∧ expandedIds.drop replaceEnd.toNat ≠
        oldTemplateIds.drop (oldTemplateIds.length - commonSuffix) then none else
    let replacementEnd := newTemplateIds.length - commonSuffix
    let rebound := expandedIds.take replaceStart.toNat ++
      (newTemplateIds.take replacementEnd).drop commonPrefix ++ expandedIds.drop replaceEnd.toNat
    let visual := fun tokenId : ℤ => some tokenId = visualTokenId
    if rebound.countP visual ≠ expandedIds.countP visual then none else some rebound

def rebindCachedMediaPrompt {μ : Type} (cached : MediaPreprocessCacheEntry μ) (prompt : List Char)
    (tokenizer : Option (List Char → List ℤ)) : Option (MediaInputs μ) :=
  match tokenizer with
  | none => none
  | some tokenize =>
    if cached.prompt = prompt then some cached.inputs else
    let promptText := cached.inputs.promptText
    if count cached.prompt promptText ≠ 1 then none else
    let reboundPromptText := replaceFirst cached.prompt prompt promptText
    let visualTokenId := cached.inputs.imageTokenId <|> cached.inputs.videoTokenId
    (reboundIds visualTokenId (tokenize promptText) (tokenize reboundPromptText)
      cached.inputs.inputIds).map fun ids =>
        { cached.inputs with
          inputIds := ids
          attentionMask := List.replicate ids.length 1
          promptText := reboundPromptText }

/-! ## Processing from scratch -/

/-- The text a chat template puts around the question, with the placeholders of the media
in `pre`. -/
structure ChatTemplate where
  pre : List Char
  post : List Char
deriving DecidableEq, Repr

def ChatTemplate.render (template : ChatTemplate) (prompt : List Char) : List Char :=
  template.pre ++ prompt ++ template.post

/-- The processor on one list of media: `expand` replaces the placeholders by what the grids
ask for and fails where there are more than media. -/
structure MediaProcessor (μ : Type) where
  tokenize : List Char → List ℤ
  expand : List ℤ → Option (List ℤ)
  media : μ
  video : Bool
  visualTokenId : ℤ
  expectedTokens : ℕ

/-- `prepare_image_inputs` and `prepare_video_inputs`, which check the number of visual
tokens against the grids. -/
def MediaProcessor.process {μ : Type} (processor : MediaProcessor μ) (template : ChatTemplate)
    (prompt : List Char) : Option (MediaInputs μ) :=
  let promptText := template.render prompt
  match processor.expand (processor.tokenize promptText) with
  | none => none
  | some ids =>
    let tokenCount := ids.count processor.visualTokenId
    if tokenCount ≠ processor.expectedTokens then none else
    some {
      inputIds := ids
      attentionMask := List.replicate ids.length 1
      media := processor.media
      imageTokenId := if processor.video then none else some processor.visualTokenId
      videoTokenId := if processor.video then some processor.visualTokenId else none
      tokenCount := tokenCount
      expectedTokens := processor.expectedTokens
      promptText := promptText }

/-- Tokenization takes the template's parts and the question one by one, and the expansion
is that of the template's first part: the rest stays as it is, a placeholder in it is one
too many. -/
structure Homomorphic {μ : Type} (processor : MediaProcessor μ) (template : ChatTemplate) where
  preIds : List ℤ
  promptIds : List Char → List ℤ
  postIds : List ℤ
  expandedPreIds : List ℤ
  tokenize_render : ∀ prompt, processor.tokenize (template.render prompt) =
    preIds ++ (promptIds prompt ++ postIds)
  placeholder : processor.visualTokenId ∈ preIds
  expand_rest : ∀ rest, processor.visualTokenId ∉ rest →
    processor.expand (preIds ++ rest) = some (expandedPreIds ++ rest)
  expand_extra : ∀ rest, processor.visualTokenId ∈ rest → processor.expand (preIds ++ rest) = none

/-! ## Rebinding -/

/-- The last placeholder lies in the part before `rest`. -/
theorem getLast?_placeholderPositions {visual : ℤ} {preIds rest : List ℤ} (hpre : visual ∈ preIds)
    (hrest : visual ∉ rest) :
    ∃ last < preIds.length, ((List.range (preIds ++ rest).length).filter fun index =>
      (preIds ++ rest)[index]? = some visual ∧ some visual ≠ none).getLast? = some last := by
  obtain ⟨i, hi, hvisual⟩ := List.mem_iff_getElem.mp hpre
  have hmem : i ∈ (List.range (preIds ++ rest).length).filter fun index =>
      (preIds ++ rest)[index]? = some visual ∧ some visual ≠ none := by
    rw [List.mem_filter, List.mem_range, List.length_append]
    refine ⟨by omega, ?_⟩
    simp [List.getElem?_append_left hi, List.getElem?_eq_getElem hi, hvisual]
  obtain ⟨last, hlast⟩ := Option.isSome_iff_exists.mp
    (List.getLast?_isSome.mpr (List.ne_nil_of_mem hmem))
  refine ⟨last, ?_, hlast⟩
  have hfilter := List.mem_of_getLast? hlast
  rw [List.mem_filter, decide_eq_true_eq] at hfilter
  by_contra hge
  rw [List.getElem?_append_right (by omega)] at hfilter
  exact hrest (List.mem_of_getElem? hfilter.2.1)

theorem drop_end {left list : List ℤ} {suffixLength : ℕ} (h : suffixLength ≤ list.length) :
    (left ++ list).drop ((left ++ list).length - suffixLength) =
      list.drop (list.length - suffixLength) := by
  rw [List.length_append, Nat.add_sub_assoc h, List.drop_length_add_append]

/-- Where the placeholders come before a rest without any, rebinding puts the new rest after
their expansion, and refuses a new rest with a placeholder. -/
theorem reboundIds_eq {visual : ℤ} {preIds rest rest' expandedPreIds : List ℤ}
    (hpre : visual ∈ preIds) (hrest : visual ∉ rest) :
    reboundIds (some visual) (preIds ++ rest) (preIds ++ rest') (expandedPreIds ++ rest) =
      if visual ∈ rest' then none else some (expandedPreIds ++ rest') := by
  obtain ⟨last, hlast, hplaceholders⟩ := getLast?_placeholderPositions hpre hrest
  have hfront := commonPrefix_append preIds rest rest'
  have hk := commonPrefix_le rest rest'
  generalize hkeq : commonPrefix rest rest' = k at hfront hk
  have hmax : min ((preIds ++ rest).length - (preIds.length + k))
      ((preIds ++ rest').length - (preIds.length + k)) =
        min (rest.length - k) (rest'.length - k) := by
    simp only [List.length_append]
    omega
  have hcs := commonSuffix_le (min (rest.length - k) (rest'.length - k)) (preIds ++ rest)
    (preIds ++ rest')
  have hends := drop_commonSuffix (min (rest.length - k) (rest'.length - k)) (preIds ++ rest)
    (preIds ++ rest')
  generalize hcseq : commonSuffix (min (rest.length - k) (rest'.length - k)) (preIds ++ rest)
    (preIds ++ rest') = cs at hcs hends
  have hold : (preIds ++ rest).drop ((preIds ++ rest).length - cs) =
      rest.drop (rest.length - cs) := drop_end (by omega)
  have hnew : (preIds ++ rest').drop ((preIds ++ rest').length - cs) =
      rest'.drop (rest'.length - cs) := drop_end (by omega)
  have hexpanded : (expandedPreIds ++ rest).drop (expandedPreIds.length + (rest.length - cs)) =
      rest.drop (rest.length - cs) := List.drop_length_add_append ..
  have hmiddle : ((preIds ++ rest').take ((preIds ++ rest').length - cs)).drop
      (preIds.length + k) = (rest'.take (rest'.length - cs)).drop k := by
    rw [List.length_append, Nat.add_sub_assoc (by omega), List.take_length_add_append,
      List.drop_length_add_append]
  have hbefore : (expandedPreIds ++ rest).take (expandedPreIds.length + k) =
      expandedPreIds ++ rest.take k := List.take_length_add_append ..
  have hspliced : expandedPreIds ++ rest.take k ++ (rest'.take (rest'.length - cs)).drop k ++
      rest.drop (rest.length - cs) = expandedPreIds ++ rest' := by
    rw [List.append_assoc, List.append_assoc, ← List.append_assoc (rest.take k),
      splice (hkeq ▸ take_commonPrefix rest rest') (by rw [← hold, ← hnew, hends]) (by omega)]
  have hstart : ((preIds.length + k : ℕ) : ℤ) +
      (((expandedPreIds ++ rest).length : ℤ) - (preIds ++ rest).length) =
        (expandedPreIds.length + k : ℕ) := by
    simp only [List.length_append]
    omega
  have hend : ((expandedPreIds ++ rest).length : ℤ) - cs =
      (expandedPreIds.length + (rest.length - cs) : ℕ) := by
    rw [List.length_append]
    omega
  have hbounds : (0 : ℤ) ≤ (expandedPreIds.length + k : ℕ) ∧
      ((expandedPreIds.length + k : ℕ) : ℤ) ≤ (expandedPreIds.length + (rest.length - cs) : ℕ) ∧
      ((expandedPreIds.length + (rest.length - cs) : ℕ) : ℤ) ≤ (expandedPreIds ++ rest).length := by
    rw [List.length_append]
    omega
  unfold reboundIds
  simp only [hfront, hmax, hcseq, hplaceholders]
  rw [if_neg (by omega), hstart, hend, if_neg (not_not.mpr hbounds), Int.toNat_natCast,
    Int.toNat_natCast, hexpanded, hold, if_neg (by simp), hmiddle, hbefore, hspliced]
  have hcount : (expandedPreIds ++ rest').countP (fun tokenId => some tokenId = some visual) ≠
      (expandedPreIds ++ rest).countP (fun tokenId => some tokenId = some visual) ↔
        visual ∈ rest' := by
    rw [List.countP_append, List.countP_append, ne_eq, Nat.add_left_cancel_iff]
    have hzero : rest.countP (fun tokenId => some tokenId = some visual) = 0 := by
      rw [List.countP_eq_zero]
      intro tokenId htoken heq
      simp only [Option.some.injEq, decide_eq_true_eq] at heq
      exact hrest (heq ▸ htoken)
    rw [hzero, List.countP_eq_zero]
    simp
  simp only [hcount]

variable {μ : Type} {processor : MediaProcessor μ} {template : ChatTemplate}

/-- A processed prompt adds no placeholder, and the template's have the right number. -/
theorem Homomorphic.process_some (h : Homomorphic processor template) {prompt : List Char}
    {inputs : MediaInputs μ} (hprocess : processor.process template prompt = some inputs) :
    processor.visualTokenId ∉ h.promptIds prompt ++ h.postIds ∧
      h.expandedPreIds.count processor.visualTokenId = processor.expectedTokens := by
  unfold MediaProcessor.process at hprocess
  simp only [h.tokenize_render] at hprocess
  by_cases hextra : processor.visualTokenId ∈ h.promptIds prompt ++ h.postIds
  · simp [h.expand_extra _ hextra] at hprocess
  · rw [h.expand_rest _ hextra] at hprocess
    simp only at hprocess
    split at hprocess
    · simp at hprocess
    · next hcount =>
      rw [not_not, List.count_append, List.count_eq_zero_of_not_mem hextra, Nat.add_zero] at hcount
      exact ⟨hextra, hcount⟩

theorem Homomorphic.process_eq (h : Homomorphic processor template) {prompt : List Char}
    (hextra : processor.visualTokenId ∉ h.promptIds prompt ++ h.postIds)
    (hcount : h.expandedPreIds.count processor.visualTokenId = processor.expectedTokens) :
    processor.process template prompt = some {
      inputIds := h.expandedPreIds ++ (h.promptIds prompt ++ h.postIds)
      attentionMask :=
        List.replicate (h.expandedPreIds ++ (h.promptIds prompt ++ h.postIds)).length 1
      media := processor.media
      imageTokenId := if processor.video then none else some processor.visualTokenId
      videoTokenId := if processor.video then some processor.visualTokenId else none
      tokenCount := processor.expectedTokens
      expectedTokens := processor.expectedTokens
      promptText := template.render prompt } := by
  have hids : (h.expandedPreIds ++ (h.promptIds prompt ++ h.postIds)).count
      processor.visualTokenId = processor.expectedTokens := by
    rw [List.count_append, List.count_eq_zero_of_not_mem hextra, Nat.add_zero, hcount]
  unfold MediaProcessor.process
  simp only [h.tokenize_render, h.expand_rest _ hextra, hids, ne_eq, not_true_eq_false, if_false]

/-- Every prompt that rebinding takes over from a cached one gets the inputs that processing
it would give, whatever the media and their processor. -/
def RebindsAsProcessed (template : ChatTemplate) (cachedPrompt : List Char) : Prop :=
  ∀ (μ : Type) (processor : MediaProcessor μ) (tokenizer : Option (List Char → List ℤ))
    (inputs result : MediaInputs μ) (prompt : List Char),
    Nonempty (Homomorphic processor template) → (∀ t ∈ tokenizer, t = processor.tokenize) →
    processor.process template cachedPrompt = some inputs →
    rebindCachedMediaPrompt ⟨inputs, cachedPrompt⟩ prompt tokenizer = some result →
    processor.process template prompt = some result

/-- No occurrence of the cached prompt starts before its own place in the rendered text,
unless the text holds it twice without overlap. -/
def OwnOccurrenceFirst (template : ChatTemplate) (cachedPrompt : List Char) : Prop :=
  count cachedPrompt (template.render cachedPrompt) = 1 →
    ∀ i < template.pre.length, ¬ OccursAt cachedPrompt (template.render cachedPrompt) i

theorem RebindsAsProcessed.of_first {cachedPrompt : List Char}
    (hfirst : OwnOccurrenceFirst template cachedPrompt) :
    RebindsAsProcessed template cachedPrompt := by
  rintro μ processor tokenizer inputs result prompt ⟨h⟩ htokenizer hcached hrebind
  obtain ⟨hrest, hcount⟩ := h.process_some hcached
  have hinputs := Option.some.inj (hcached.symm.trans (h.process_eq hrest hcount))
  have hids : inputs.inputIds = h.expandedPreIds ++ (h.promptIds cachedPrompt ++ h.postIds) := by
    rw [hinputs]
  have htext : inputs.promptText = template.render cachedPrompt := by rw [hinputs]
  have hvisual : (inputs.imageTokenId <|> inputs.videoTokenId) = some processor.visualTokenId := by
    rw [hinputs]
    cases processor.video <;> rfl
  unfold rebindCachedMediaPrompt at hrebind
  cases tokenizer with
  | none => simp at hrebind
  | some tokenize =>
    obtain rfl := htokenizer tokenize rfl
    simp only [hids, htext, hvisual] at hrebind
    split at hrebind
    · next hsame => rw [← hsame, hcached, hrebind]
    · split at hrebind
      · simp at hrebind
      · next hone =>
        have hrebound : replaceFirst cachedPrompt prompt (template.render cachedPrompt) =
            template.render prompt := replaceFirst_append (hfirst (not_not.mp hone)) prompt
        rw [hrebound, h.tokenize_render, h.tokenize_render,
          reboundIds_eq h.placeholder hrest] at hrebind
        split at hrebind
        · simp at hrebind
        · next hextra =>
          rw [h.process_eq hextra hcount, ← hrebind, hinputs]
          rfl

/-! ## A prompt that occurs too early -/

def codes (text : List Char) : List ℤ :=
  text.map fun c => (c.toNat : ℤ)

theorem visual_notMem_codes (text : List Char) : (-1 : ℤ) ∉ codes text := by
  intro h
  obtain ⟨c, -, hc⟩ := List.mem_map.mp h
  omega

/-- One image of four tokens, its placeholder in front of the text's code points. -/
def codePoints : MediaProcessor Unit where
  tokenize text := -1 :: codes text
  expand
    | [] => none
    | first :: rest => if -1 ∈ rest then none else some (List.replicate 4 first ++ rest)
  media := ()
  video := false
  visualTokenId := -1
  expectedTokens := 4

def codePoints_homomorphic (template : ChatTemplate) : Homomorphic codePoints template where
  preIds := -1 :: codes template.pre
  promptIds := codes
  postIds := codes template.post
  expandedPreIds := List.replicate 4 (-1) ++ codes template.pre
  tokenize_render prompt := by simp [codePoints, ChatTemplate.render, codes]
  placeholder := List.mem_cons_self
  expand_rest rest h := by
    have hrest : (-1 : ℤ) ∉ codes template.pre ++ rest := by
      rw [List.mem_append]
      exact not_or.mpr ⟨visual_notMem_codes _, h⟩
    simp only [codePoints, List.cons_append, if_neg hrest, List.append_assoc]
  expand_extra rest h := by
    have hrest : (-1 : ℤ) ∈ codes template.pre ++ rest := List.mem_append_right _ h
    simp only [codePoints, List.cons_append, if_pos hrest]

theorem codePoints_process (template : ChatTemplate) (prompt : List Char) :
    codePoints.process template prompt = some {
      inputIds := List.replicate 4 (-1) ++ codes (template.render prompt)
      attentionMask := List.replicate ((codes (template.render prompt)).length + 4) 1
      media := ()
      imageTokenId := some (-1)
      videoTokenId := none
      tokenCount := 4
      expectedTokens := 4
      promptText := template.render prompt } := by
  have hcodes := List.count_eq_zero_of_not_mem (visual_notMem_codes (template.render prompt))
  simp [MediaProcessor.process, codePoints, visual_notMem_codes, hcodes]

/-- With the ids of `codePoints` any single occurrence is replaced, also a wrong one. -/
theorem codePoints_rebind {cachedPrompt : List Char} {inputs : MediaInputs Unit}
    (hcached : codePoints.process template cachedPrompt = some inputs)
    {prompt : List Char} (hne : cachedPrompt ≠ prompt)
    (hone : count cachedPrompt (template.render cachedPrompt) = 1) :
    ∃ result, rebindCachedMediaPrompt ⟨inputs, cachedPrompt⟩ prompt (some codePoints.tokenize) =
      some result ∧
      result.promptText = replaceFirst cachedPrompt prompt (template.render cachedPrompt) := by
  obtain rfl := Option.some.inj ((codePoints_process template cachedPrompt).symm.trans hcached)
  have hids := @reboundIds_eq (-1) [-1] (codes (template.render cachedPrompt))
    (codes (replaceFirst cachedPrompt prompt (template.render cachedPrompt)))
    (List.replicate 4 (-1)) List.mem_cons_self (visual_notMem_codes _)
  rw [if_neg (visual_notMem_codes _)] at hids
  unfold rebindCachedMediaPrompt
  simp only [if_neg hne, hone, ne_eq, not_true_eq_false, if_false]
  change reboundIds (some (-1) <|> none) (codePoints.tokenize _) (codePoints.tokenize _) _ =
    _ at hids
  rw [hids]
  exact ⟨_, rfl, rfl⟩

/-- Some symbol differs from a given one. -/
theorem exists_char_ne (d : Char) : ∃ c : Char, c ≠ d := by
  by_cases h : d = 'a'
  · exact ⟨'b', by rw [h]; decide⟩
  · exact ⟨'a', Ne.symm h⟩

theorem OwnOccurrenceFirst.of_rebinds {cachedPrompt : List Char}
    (hrebinds : RebindsAsProcessed template cachedPrompt) :
    OwnOccurrenceFirst template cachedPrompt := by
  intro hone i hi hoccurs
  have hlength : template.pre.length ≤ (template.render cachedPrompt).length := by
    simp [ChatTemplate.render]
  obtain ⟨first, hfirst, hfind, hoccurs⟩ := find_le (by omega) hoccurs
  have hpre : first < template.pre.length := by omega
  obtain ⟨c, hc⟩ := exists_char_ne template.pre[first]
  -- A question of one other symbol: it lands at `first`, where the template has its own.
  have hat : ∀ prompt, (template.render prompt)[first]? = some template.pre[first] := by
    intro prompt
    rw [ChatTemplate.render, List.append_assoc, List.getElem?_append_left hpre,
      List.getElem?_eq_getElem hpre]
  have hne : cachedPrompt ≠ [c] := by
    rintro rfl
    obtain ⟨rest, hrest⟩ := hoccurs
    have hget := congrArg List.head? hrest
    rw [List.head?_drop, hat] at hget
    exact hc (Option.some.inj hget)
  obtain ⟨result, hrebind, htext⟩ :=
    codePoints_rebind (codePoints_process template cachedPrompt) hne hone
  have hprocess := hrebinds Unit codePoints (some codePoints.tokenize) _ result [c]
    ⟨codePoints_homomorphic template⟩ (by simp) (codePoints_process template cachedPrompt) hrebind
  rw [codePoints_process] at hprocess
  have hrender : template.render [c] = result.promptText :=
    congrArg MediaInputs.promptText (Option.some.inj hprocess)
  rw [htext, replaceFirst, hfind] at hrender
  have hget := congrArg (·[first]?) hrender
  simp only [hat, List.append_assoc] at hget
  rw [List.getElem?_append_right (by simp)] at hget
  simp [Nat.min_eq_left (by omega : first ≤ (template.render cachedPrompt).length)] at hget
  exact hc hget.symm

/-- Rebinding a cached prompt is processing the new one exactly where the cached prompt does
not occur before its own place: the occurrences are counted without overlap, so one that
overlaps its own place from the left goes unnoticed and is the one replaced. -/
theorem rebindCachedMediaPrompt_exact_iff {template : ChatTemplate} {cachedPrompt : List Char} :
    RebindsAsProcessed template cachedPrompt ↔ OwnOccurrenceFirst template cachedPrompt :=
  ⟨OwnOccurrenceFirst.of_rebinds, RebindsAsProcessed.of_first⟩

/-- The template around a question with one image. -/
def imageTemplate : ChatTemplate where
  pre := "<|im_start|>user\n<|vision_start|><|image_pad|><|vision_end|>".toList
  post := "<|im_end|>\n<|im_start|>assistant\n".toList

/-- The question `>>` is found one character early, together with the end of the vision
marker: rebinding it to `Hi` breaks the marker up. -/
theorem rebind_breaks_marker : ¬ RebindsAsProcessed imageTemplate ">>".toList := by
  intro h
  have hone : count ">>".toList (imageTemplate.render ">>".toList) = 1 := by decide
  have hne : ">>".toList ≠ "Hi".toList := by decide
  obtain ⟨result, hrebind, htext⟩ :=
    codePoints_rebind (codePoints_process imageTemplate ">>".toList) hne hone
  have hprocess := h Unit codePoints (some codePoints.tokenize) _ result _
    ⟨codePoints_homomorphic imageTemplate⟩ (by simp) (codePoints_process _ _) hrebind
  rw [codePoints_process] at hprocess
  have hrender : imageTemplate.render "Hi".toList = result.promptText :=
    congrArg MediaInputs.promptText (Option.some.inj hprocess)
  rw [htext] at hrender
  revert hrender
  decide

end PrismInfer
