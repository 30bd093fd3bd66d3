import PrismInfer.Sequence
import PrismInfer.Lib.Spans

/-!
# Image spans of a prompt

`image_token_spans` cuts the runs of image tokens by the token counts of the images. Where
the image tokens of a prompt stand in spans of these lengths, it finds the spans.
-/
namespace PrismInfer
open StateExcept Spans

namespace Request

/-! ## Runs and cuts -/

theorem padRunsFrom_woven (id i : ℕ) (tokens : List ℕ) :
    Woven id i tokens (padRunsFrom id i none tokens) ∧
      ∀ start < i, Woven id start (List.replicate (i - start) id ++ tokens)
        (padRunsFrom id i (some start) tokens) := by
  induction tokens generalizing i with
  | nil =>
    refine ⟨.gap List.not_mem_nil, fun start hstart => ?_⟩
    exact .run (by omega) (by omega) (.gap List.not_mem_nil)
  | cons token tokens ih =>
    obtain ⟨hnone, hsome⟩ := ih (i + 1)
    by_cases htoken : token = id
    · subst htoken
      constructor
      · rw [padRunsFrom, if_pos rfl]
        have hrun := hsome i (by omega)
        rwa [Nat.add_sub_cancel_left] at hrun
      · intro start hstart
        have hrun := hsome start (by omega)
        rw [padRunsFrom, if_pos rfl]
        rwa [Nat.sub_add_comm hstart.le, List.replicate_succ', List.append_assoc] at hrun
    · have hskip : Woven id i (token :: tokens) (padRunsFrom id (i + 1) none tokens) :=
        Woven.gap_append (show id ∉ [token] by simpa using Ne.symm htoken) hnone
      refine ⟨?_, fun start hstart => ?_⟩
      · rwa [padRunsFrom, if_neg htoken]
      · rw [padRunsFrom, if_neg htoken]
        exact .run (by omega) (by omega) hskip

/-! ## The spans of a well-formed prompt -/

/-- Spans cut out of one run leave the counts behind them. -/
theorem cutRun_tiles {cursor stop : ℕ} {spans : List (ℕ × ℕ)} (h : Tiles cursor spans stop)
    (counts : List ℕ) :
    cutRun stop cursor ((spans.map fun span => span.2 - span.1) ++ counts) =
      some (spans, counts) := by
  induction spans generalizing cursor with
  | nil =>
    obtain rfl : cursor = stop := h
    cases counts <;> simp [cutRun]
  | cons span spans ih =>
    obtain ⟨hstart, hpos, hrest⟩ := h
    have hle := hrest.le
    have hend : cursor + (span.2 - span.1) = span.2 := by omega
    rw [List.map_cons, List.cons_append, cutRun, if_pos (by omega), if_neg (by omega),
      hend, ih hrest, Option.map_some]
    simp only [Option.some.injEq, Prod.mk.injEq, List.cons.injEq, and_true]
    exact Prod.ext hstart.symm rfl

section PadRuns

variable {id : ℕ} {gap : List ℕ} (hgap : id ∉ gap)
include hgap

theorem padRunsFrom_gap (i : ℕ) (rest : List ℕ) :
    padRunsFrom id i none (gap ++ rest) = padRunsFrom id (i + gap.length) none rest := by
  induction gap generalizing i with
  | nil => rfl
  | cons token gap ih =>
    have htoken : token ≠ id := fun h => hgap (h ▸ List.mem_cons_self)
    rw [List.cons_append, padRunsFrom, if_neg htoken,
      ih (fun h => hgap (List.mem_cons_of_mem _ h)), List.length_cons, Nat.add_right_comm]
    rfl

theorem padRunsFrom_close (hne : gap ≠ []) (i start : ℕ) (rest : List ℕ) :
    padRunsFrom id i (some start) (gap ++ rest) =
      (start, i) :: padRunsFrom id (i + gap.length) none rest := by
  cases gap with
  | nil => exact absurd rfl hne
  | cons token gap =>
    have htoken : token ≠ id := fun h => hgap (h ▸ List.mem_cons_self)
    rw [List.cons_append, padRunsFrom, if_neg htoken,
      padRunsFrom_gap (fun h => hgap (List.mem_cons_of_mem _ h)), List.length_cons,
      Nat.add_right_comm]
    rfl

end PadRuns

theorem padRunsFrom_run (id n i start : ℕ) (rest : List ℕ) :
    padRunsFrom id i (some start) (List.replicate n id ++ rest) =
      padRunsFrom id (i + n) (some start) rest := by
  induction n generalizing i with
  | zero => rfl
  | succ n ih =>
    rw [List.replicate_succ, List.cons_append, padRunsFrom, if_pos rfl, ih, Nat.add_right_comm]
    rfl

theorem padRunsFrom_open (id : ℕ) {n : ℕ} (hn : 0 < n) (i : ℕ) (rest : List ℕ) :
    padRunsFrom id i none (List.replicate n id ++ rest) =
      padRunsFrom id (i + n) (some i) rest := by
  obtain ⟨n, rfl⟩ := Nat.exists_eq_succ_of_ne_zero hn.ne'
  rw [List.replicate_succ, List.cons_append, padRunsFrom, if_pos rfl, padRunsFrom_run]
  congr 1
  omega

/-- The cuts find the spans again, also where spans touch: then the open run holds those cut
out of it so far. -/
theorem woven_cutRuns {id offset : ℕ} {tokens : List ℕ} {spans : List (ℕ × ℕ)}
    (h : Woven id offset tokens spans) :
    cutRuns (padRunsFrom id offset none tokens) (spans.map fun span => span.2 - span.1) =
        some spans ∧
      ∀ start cut, Tiles start cut offset →
        cutRuns (padRunsFrom id offset (some start) tokens)
          ((cut.map fun span => span.2 - span.1) ++ spans.map fun span => span.2 - span.1) =
            some (cut ++ spans) := by
  induction h with
  | @gap offset list hgap =>
    constructor
    · have hruns := padRunsFrom_gap hgap offset []
      rw [List.append_nil] at hruns
      rw [hruns]
      simp [padRunsFrom, cutRuns]
    · intro start cut hcut
      have hruns : padRunsFrom id offset (some start) list = [(start, offset)] := by
        by_cases hnil : list = []
        · subst hnil
          rfl
        · have hclose := padRunsFrom_close hgap hnil offset start []
          rwa [List.append_nil] at hclose
      rw [hruns, cutRuns, cutRun_tiles hcut]
      simp [cutRuns]
  | @span offset gap n rest spans start stop hgap hn hstart hstop hrest ih =>
    have hnone : cutRuns (padRunsFrom id offset none (gap ++ (List.replicate n id ++ rest)))
        (((start, stop) :: spans).map fun span => span.2 - span.1) =
          some ((start, stop) :: spans) := by
      rw [padRunsFrom_gap hgap, ← hstart, padRunsFrom_open id hn, ← hstop]
      exact ih.2 start [(start, stop)] ⟨rfl, by omega, rfl⟩
    refine ⟨hnone, fun first cut hcut => ?_⟩
    by_cases hnil : gap = []
    · subst hnil
      obtain rfl : start = offset := hstart
      rw [List.nil_append, padRunsFrom_run, ← hstop]
      have htiles : Tiles first (cut ++ [(start, stop)]) stop :=
        hcut.append ⟨rfl, by simp only; omega, rfl⟩
      have hcuts := ih.2 first _ htiles
      rw [List.map_append, List.append_assoc, List.append_assoc] at hcuts
      exact hcuts
    · rw [padRunsFrom_gap hgap] at hnone
      rw [padRunsFrom_close hgap hnil, cutRuns, cutRun_tiles hcut]
      simp only
      rw [hnone, Option.map_some]

variable {req : Request}

theorem imageTokenSpans_of_woven {id : ℕ} {payload : ImagePayload} {spans : List (ℕ × ℕ)}
    (hid : req.imageTokenId = some id) (hpayload : req.images = some payload)
    (hspans : Woven id 0 req.promptTokenIds spans)
    (hlengths : req.tokensPerImage payload.images = spans.map fun span => span.2 - span.1)
    (hcount : req.imageTokenCount = total spans) : req.imageTokenSpans = some spans := by
  unfold imageTokenSpans imagePadRuns
  rw [hid, hpayload]
  simp only
  have hsum : (spans.map fun span => span.2 - span.1).sum = total spans := rfl
  rw [hlengths, hcount, hsum, if_neg (not_not.mpr rfl)]
  exact (woven_cutRuns hspans).1

end Request

end PrismInfer
