import Mathlib.Tactic

/-!
# Spans of one symbol

Half-open spans `(start, stop)` in increasing order, and lists in which a symbol stands in
such spans only. A boundary outside every span splits the spans into those that end by it
and those that start from it on.
-/
namespace Spans

variable {α : Type*}

/-- Nonempty spans in order, from `lower` on. -/
def Ordered : ℕ → List (ℕ × ℕ) → Prop
  | _, [] => True
  | lower, span :: spans => lower ≤ span.1 ∧ span.1 < span.2 ∧ Ordered span.2 spans

/-- `x` lies strictly inside no span. -/
def Outside (spans : List (ℕ × ℕ)) (x : ℕ) : Prop :=
  ∀ span ∈ spans, ¬ (span.1 < x ∧ x < span.2)

instance (spans : List (ℕ × ℕ)) (x : ℕ) : Decidable (Outside spans x) :=
  inferInstanceAs (Decidable (∀ _ ∈ _, _))

/-- How many spans, from the first on, end by `x`. -/
def ended (x : ℕ) : List (ℕ × ℕ) → ℕ
  | [] => 0
  | span :: spans => if span.2 ≤ x then ended x spans + 1 else 0

/-- Which spans, by number, lie within `[x, y)`. -/
def within (x y : ℕ) (spans : List (ℕ × ℕ)) : List ℕ :=
  (spans.zipIdx.filter fun item => x ≤ item.1.1 ∧ item.1.2 ≤ y).map (·.2)

/-- Summed lengths. -/
def total (spans : List (ℕ × ℕ)) : ℕ :=
  (spans.map fun span => span.2 - span.1).sum

@[simp] theorem total_nil : total [] = 0 := rfl

@[simp] theorem total_cons (span : ℕ × ℕ) (spans : List (ℕ × ℕ)) :
    total (span :: spans) = span.2 - span.1 + total spans := rfl

theorem total_append (spans spans' : List (ℕ × ℕ)) :
    total (spans ++ spans') = total spans + total spans' := by
  rw [total, List.map_append, List.sum_append]
  rfl

theorem Outside.tail {span : ℕ × ℕ} {spans : List (ℕ × ℕ)} {x : ℕ}
    (h : Outside (span :: spans) x) : Outside spans x := fun s hs =>
  h s (List.mem_cons_of_mem _ hs)

theorem ended_le (x : ℕ) (spans : List (ℕ × ℕ)) : ended x spans ≤ spans.length := by
  induction spans with
  | nil => exact le_rfl
  | cons span spans ih =>
    unfold ended
    split
    · rw [List.length_cons]
      omega
    · exact Nat.zero_le _

theorem Ordered.ended_eq_zero {lower x : ℕ} {spans : List (ℕ × ℕ)} (h : Ordered lower spans)
    (hx : x ≤ lower) : ended x spans = 0 := by
  cases spans with
  | nil => rfl
  | cons span spans =>
    obtain ⟨hlower, hpos, -⟩ := h
    rw [ended, if_neg (by omega)]

theorem ended_mono {x y : ℕ} (h : x ≤ y) (spans : List (ℕ × ℕ)) :
    ended x spans ≤ ended y spans := by
  induction spans with
  | nil => exact le_rfl
  | cons span spans ih =>
    unfold ended
    split
    · rw [if_pos (by omega)]
      omega
    · exact Nat.zero_le _

theorem Ordered.le_of_mem {lower : ℕ} {spans : List (ℕ × ℕ)} (h : Ordered lower spans)
    {span : ℕ × ℕ} (hspan : span ∈ spans) : lower ≤ span.1 ∧ span.1 < span.2 := by
  induction spans generalizing lower with
  | nil => exact absurd hspan List.not_mem_nil
  | cons first spans ih =>
    obtain ⟨hlower, hpos, hrest⟩ := h
    rcases List.mem_cons.mp hspan with rfl | hmem
    · exact ⟨hlower, hpos⟩
    · have := ih hrest hmem
      omega

/-- The spans that meet the range between two boundaries are those that end in it, numbered
without a gap. -/
theorem Ordered.filter_meets {lower x y : ℕ} {spans : List (ℕ × ℕ)} (h : Ordered lower spans)
    (hx : Outside spans x) (hy : Outside spans y) (hxy : x ≤ y) (k : ℕ) :
    (spans.zipIdx k).filter (fun item => item.1.1 < y ∧ x < item.1.2) =
      ((spans.take (ended y spans)).drop (ended x spans)).zipIdx (k + ended x spans) := by
  induction spans generalizing lower k with
  | nil => rfl
  | cons span spans ih =>
    obtain ⟨hlower, hpos, hrest⟩ := h
    have ih := ih hrest hx.tail hy.tail
    have hx' := hx span List.mem_cons_self
    have hy' := hy span List.mem_cons_self
    rw [List.zipIdx_cons]
    by_cases hbefore : span.2 ≤ x
    · have hskip : ¬ (span.1 < y ∧ x < span.2) := by omega
      have hendedX : ended x (span :: spans) = ended x spans + 1 := if_pos hbefore
      have hendedY : ended y (span :: spans) = ended y spans + 1 := if_pos (by omega)
      rw [List.filter_cons_of_neg (by simpa using hskip), hendedX, hendedY, ih,
        List.take_succ_cons, List.drop_succ_cons]
      congr 1
      omega
    · have hendedX : ended x (span :: spans) = 0 := if_neg hbefore
      by_cases hwithin : span.2 ≤ y
      · have hmeets : span.1 < y ∧ x < span.2 := by omega
        have hendedY : ended y (span :: spans) = ended y spans + 1 := if_pos hwithin
        rw [List.filter_cons_of_pos (by simpa using hmeets), hendedX, hendedY, ih,
          hrest.ended_eq_zero (by omega), List.take_succ_cons, List.drop_zero, List.drop_zero,
          List.zipIdx_cons]
        rfl
      · have hskip : ¬ (span.1 < y ∧ x < span.2) := by omega
        have hendedY : ended y (span :: spans) = 0 := if_neg hwithin
        rw [List.filter_cons_of_neg (by simpa using hskip), hendedX, hendedY, ih,
          hrest.ended_eq_zero (by omega), hrest.ended_eq_zero (by omega)]
        rfl

/-! ## Lists with a symbol in spans -/

/-- From position `offset` on, `list` has the symbol `c` in the spans and nowhere else. -/
inductive Woven (c : α) : ℕ → List α → List (ℕ × ℕ) → Prop
  | gap {offset list} (h : c ∉ list) : Woven c offset list []
  | span {offset gap n rest spans start stop} (hgap : c ∉ gap) (hn : 0 < n)
      (hstart : start = offset + gap.length) (hstop : stop = start + n)
      (hrest : Woven c stop rest spans) :
      Woven c offset (gap ++ (List.replicate n c ++ rest)) ((start, stop) :: spans)

variable {c : α} {offset : ℕ} {list : List α} {spans : List (ℕ × ℕ)}

theorem Woven.gap_append {gap : List α} (hgap : c ∉ gap)
    (h : Woven c (offset + gap.length) list spans) : Woven c offset (gap ++ list) spans := by
  cases h with
  | gap h => exact .gap (by rw [List.mem_append]; exact not_or.mpr ⟨hgap, h⟩)
  | @span _ gap' _ _ _ _ _ hgap' hn hstart hstop hrest =>
    rw [← List.append_assoc]
    refine .span ?_ hn ?_ hstop hrest
    · rw [List.mem_append]
      exact not_or.mpr ⟨hgap, hgap'⟩
    · rw [List.length_append]
      omega

/-- A run in front of a woven list. -/
theorem Woven.run {n stop : ℕ} (hn : 0 < n) (hstop : stop = offset + n)
    (h : Woven c stop list spans) :
    Woven c offset (List.replicate n c ++ list) ((offset, stop) :: spans) :=
  .span (show c ∉ ([] : List α) from List.not_mem_nil) hn rfl hstop h

theorem Woven.ordered (h : Woven c offset list spans) : Ordered offset spans := by
  induction h with
  | gap => trivial
  | span hgap hn hstart hstop hrest ih => exact ⟨by omega, by omega, ih⟩

theorem Woven.le_length (h : Woven c offset list spans) :
    ∀ span ∈ spans, span.2 ≤ offset + list.length := by
  induction h with
  | gap => simp
  | span hgap hn hstart hstop hrest ih =>
    intro span hspan
    simp only [List.length_append, List.length_replicate]
    rcases List.mem_cons.mp hspan with rfl | hmem
    · simp only
      omega
    · have := ih span hmem
      omega

theorem Woven.getElem? (h : Woven c offset list spans) {span : ℕ × ℕ} (hspan : span ∈ spans)
    {position : ℕ} (hle : span.1 ≤ position) (hlt : position < span.2) :
    list[position - offset]? = some c := by
  induction h with
  | gap => exact absurd hspan List.not_mem_nil
  | @span offset gap n rest spans start stop hgap hn hstart hstop hrest ih =>
    rcases List.mem_cons.mp hspan with rfl | hmem
    · simp only at hle hlt
      rw [List.getElem?_append_right (by omega), List.getElem?_append_left]
      · rw [List.getElem?_replicate, if_pos (by omega)]
      · rw [List.length_replicate]
        omega
    · have hbehind := (hrest.ordered.le_of_mem hmem).1
      rw [List.getElem?_append_right (by omega), List.getElem?_append_right, List.length_replicate,
        ← ih hmem]
      · congr 1
        omega
      · rw [List.length_replicate]
        omega

/-- The symbol stands in the spans only. -/
theorem Woven.mem_of_getElem? (h : Woven c offset list spans) {position : ℕ}
    (hoffset : offset ≤ position) (hget : list[position - offset]? = some c) :
    ∃ span ∈ spans, span.1 ≤ position ∧ position < span.2 := by
  induction h with
  | gap h => exact absurd (List.mem_of_getElem? hget) h
  | @span offset gap n rest spans start stop hgap hn hstart hstop hrest ih =>
    by_cases hbefore : position < start
    · rw [List.getElem?_append_left (by omega)] at hget
      exact absurd (List.mem_of_getElem? hget) hgap
    · by_cases hinside : position < stop
      · exact ⟨(start, stop), List.mem_cons_self, not_lt.mp hbefore, hinside⟩
      · have hskip : position - offset - gap.length - n = position - stop := by omega
        rw [List.getElem?_append_right (by omega), List.getElem?_append_right
          (by rw [List.length_replicate]; omega), List.length_replicate, hskip] at hget
        obtain ⟨span, hspan, hbounds⟩ := ih (by omega) hget
        exact ⟨span, List.mem_cons_of_mem _ hspan, hbounds⟩

/-- Up to a boundary the symbol occurs as often as the ended spans are long. -/
theorem Woven.count_take [DecidableEq α] (h : Woven c offset list spans) {x : ℕ}
    (hx : Outside spans x) (hoffset : offset ≤ x) :
    (list.take (x - offset)).count c = total (spans.take (ended x spans)) := by
  induction h with
  | gap h => exact List.count_eq_zero_of_not_mem fun hmem => h (List.mem_of_mem_take hmem)
  | @span offset gap n rest spans start stop hgap hn hstart hstop hrest ih =>
    have hx' := hx _ List.mem_cons_self
    simp only at hx'
    by_cases hended : stop ≤ x
    · have hsplit : x - offset = gap.length + (n + (x - stop)) := by omega
      rw [ended, if_pos hended, List.take_succ_cons, total_cons, ← ih hx.tail hended, hsplit,
        List.take_length_add_append, List.count_append, List.count_eq_zero_of_not_mem hgap]
      have hrun : (List.replicate n c ++ rest).take (n + (x - stop)) =
          List.replicate n c ++ rest.take (x - stop) := by
        rw [← List.take_length_add_append, List.length_replicate]
      rw [hrun, List.count_append, List.count_replicate_self]
      simp only
      omega
    · have hgapOnly : x - offset ≤ gap.length := by omega
      rw [ended, if_neg hended, List.take_append_of_le_length hgapOnly]
      exact List.count_eq_zero_of_not_mem fun hmem => hgap (List.mem_of_mem_take hmem)

/-- Between two boundaries the symbol occurs as often as the spans that end there are
long. -/
theorem Woven.count_range [DecidableEq α] (h : Woven c 0 list spans) {x y : ℕ}
    (hx : Outside spans x) (hy : Outside spans y) (hxy : x ≤ y) :
    ((list.take y).drop x).count c =
      total ((spans.take (ended y spans)).drop (ended x spans)) := by
  have hsplit := List.take_append_drop x (list.take y)
  rw [List.take_take, min_eq_left hxy] at hsplit
  have hcount := congrArg (List.count c) hsplit
  have hspans := List.take_append_drop (ended x spans) (spans.take (ended y spans))
  rw [List.take_take, min_eq_left (ended_mono hxy spans)] at hspans
  have htotal := congrArg total hspans
  have htakeX := h.count_take hx (Nat.zero_le x)
  have htakeY := h.count_take hy (Nat.zero_le y)
  rw [Nat.sub_zero] at htakeX htakeY
  rw [List.count_append] at hcount
  rw [total_append] at htotal
  omega

/-- Between two boundaries lie the spans that end there, without a gap. -/
theorem Ordered.within_eq {lower x y : ℕ} {spans : List (ℕ × ℕ)} (h : Ordered lower spans)
    (hx : Outside spans x) (hy : Outside spans y) (hxy : x ≤ y) :
    within x y spans = List.range' (ended x spans) (ended y spans - ended x spans) := by
  have hmeets : (spans.zipIdx.filter fun item => x ≤ item.1.1 ∧ item.1.2 ≤ y) =
      spans.zipIdx.filter fun item => item.1.1 < y ∧ x < item.1.2 := by
    apply List.filter_congr
    intro item hitem
    have hspan := List.fst_mem_of_mem_zipIdx hitem
    have hpos := (h.le_of_mem hspan).2
    have houtX := hx _ hspan
    have houtY := hy _ hspan
    rw [decide_eq_decide]
    omega
  rw [within, hmeets, h.filter_meets hx hy hxy 0, List.zipIdx_map_snd, List.length_drop,
    List.length_take, min_eq_left (ended_le y spans), Nat.zero_add]

theorem Ordered.within_append {lower x y z : ℕ} {spans : List (ℕ × ℕ)} (h : Ordered lower spans)
    (hx : Outside spans x) (hy : Outside spans y) (hz : Outside spans z) (hxy : x ≤ y)
    (hyz : y ≤ z) : within x y spans ++ within y z spans = within x z spans := by
  have hmonoX := ended_mono hxy spans
  have hmonoY := ended_mono hyz spans
  rw [h.within_eq hx hy hxy, h.within_eq hy hz hyz, h.within_eq hx hz (hxy.trans hyz)]
  have happend := @List.range'_append_1 (ended x spans) (ended y spans - ended x spans)
    (ended z spans - ended y spans)
  rw [Nat.add_sub_cancel' hmonoX] at happend
  rw [happend]
  congr 1
  omega

/-- Up to a bound of all spans lie those that begin from `x` on. -/
theorem within_of_le {x y : ℕ} {spans : List (ℕ × ℕ)} (h : ∀ span ∈ spans, span.2 ≤ y) :
    within x y spans = (spans.zipIdx.filter fun item => x ≤ item.1.1).map (·.2) := by
  rw [within]
  congr 1
  apply List.filter_congr
  intro item hitem
  have := h _ (List.fst_mem_of_mem_zipIdx hitem)
  rw [decide_eq_decide]
  omega

theorem within_singleton (x y : ℕ) (span : ℕ × ℕ) :
    within x y [span] = if x ≤ span.1 ∧ span.2 ≤ y then [0] else [] := by
  unfold within
  by_cases h : x ≤ span.1 ∧ span.2 ≤ y
  · simp [h]
  · simp [h]

/-! ## Tilings -/

/-- Nonempty pieces, each where the one before it stops, from `start` to `stop`. -/
def Tiles : ℕ → List (ℕ × ℕ) → ℕ → Prop
  | start, [], stop => start = stop
  | start, piece :: pieces, stop => piece.1 = start ∧ start < piece.2 ∧ Tiles piece.2 pieces stop

theorem Tiles.le {start stop : ℕ} {pieces : List (ℕ × ℕ)} (h : Tiles start pieces stop) :
    start ≤ stop := by
  induction pieces generalizing start with
  | nil => exact Nat.le_of_eq h
  | cons piece pieces ih =>
    obtain ⟨-, hpos, hrest⟩ := h
    exact hpos.le.trans (ih hrest)

theorem Tiles.append {start middle stop : ℕ} {pieces pieces' : List (ℕ × ℕ)}
    (h : Tiles start pieces middle) (h' : Tiles middle pieces' stop) :
    Tiles start (pieces ++ pieces') stop := by
  induction pieces generalizing start with
  | nil =>
    obtain rfl : start = middle := h
    exact h'
  | cons piece pieces ih => exact ⟨h.1, h.2.1, ih h.2.2⟩

theorem Tiles.outside {start stop : ℕ} {spans pieces : List (ℕ × ℕ)} (h : Tiles start pieces stop)
    (hstart : Outside spans start) (hstops : ∀ piece ∈ pieces, Outside spans piece.2) :
    Outside spans stop := by
  induction pieces generalizing start with
  | nil =>
    obtain rfl : start = stop := h
    exact hstart
  | cons piece pieces ih =>
    exact ih h.2.2 (hstops piece List.mem_cons_self) fun later hmem =>
      hstops later (List.mem_cons_of_mem _ hmem)

/-- The pieces between boundaries hold, piece after piece, the spans that the whole holds. -/
theorem Tiles.flatMap_within {lower start stop : ℕ} {spans pieces : List (ℕ × ℕ)}
    (h : Tiles start pieces stop) (hordered : Ordered lower spans) (hstart : Outside spans start)
    (hstops : ∀ piece ∈ pieces, Outside spans piece.2) :
    pieces.flatMap (fun piece => within piece.1 piece.2 spans) = within start stop spans := by
  induction pieces generalizing start with
  | nil =>
    obtain rfl : start = stop := h
    rw [hordered.within_eq hstart hstart le_rfl, Nat.sub_self]
    rfl
  | cons piece pieces ih =>
    obtain ⟨rfl, hpos, hrest⟩ := h
    have hmiddle := hstops piece List.mem_cons_self
    have hlater : ∀ later ∈ pieces, Outside spans later.2 := fun later hmem =>
      hstops later (List.mem_cons_of_mem _ hmem)
    have hstop : Outside spans stop := hrest.outside hmiddle hlater
    rw [List.flatMap_cons, ih hrest hmiddle hlater,
      hordered.within_append hstart hmiddle hstop hpos.le hrest.le]

/-! ## Owners of a position -/

/-- Two spans of an ordered list are the same or apart. -/
theorem Ordered.apart {lower : ℕ} {spans : List (ℕ × ℕ)} (h : Ordered lower spans)
    {span span' : ℕ × ℕ} (hspan : span ∈ spans) (hspan' : span' ∈ spans) :
    span = span' ∨ span.2 ≤ span'.1 ∨ span'.2 ≤ span.1 := by
  induction spans generalizing lower with
  | nil => exact absurd hspan List.not_mem_nil
  | cons first spans ih =>
    obtain ⟨-, -, hrest⟩ := h
    rcases List.mem_cons.mp hspan with rfl | hmem <;>
      rcases List.mem_cons.mp hspan' with rfl | hmem'
    · exact .inl rfl
    · exact .inr (.inl (hrest.le_of_mem hmem').1)
    · exact .inr (.inr (hrest.le_of_mem hmem).1)
    · exact ih hrest hmem hmem'

/-- Of all items numbered by ordered spans, the one over `position` alone is selected. -/
theorem Ordered.flatMap_owner {β γ : Type*} {lower : ℕ} {spans : List (ℕ × ℕ)}
    (h : Ordered lower spans) {items : List β} {k : ℕ} {span : ℕ × ℕ} {item : β}
    (hspan : spans[k]? = some span) (hitem : items[k]? = some item) {position : ℕ}
    (hle : span.1 ≤ position) (hlt : position < span.2) (f : β → List γ) :
    ((spans.zip items).flatMap fun entry =>
      if entry.1.1 ≤ position ∧ position < entry.1.2 then f entry.2 else []) = f item := by
  induction spans generalizing lower items k with
  | nil => simp at hspan
  | cons first spans ih =>
    obtain ⟨-, hpos, hrest⟩ := h
    cases items with
    | nil => simp at hitem
    | cons head items =>
      rw [List.zip_cons_cons, List.flatMap_cons]
      cases k with
      | zero =>
        simp only [List.getElem?_cons_zero, Option.some.injEq] at hspan hitem
        subst hspan hitem
        rw [if_pos ⟨hle, hlt⟩]
        have hlater : ((spans.zip items).flatMap fun entry =>
            if entry.1.1 ≤ position ∧ position < entry.1.2 then f entry.2 else []) = [] := by
          rw [List.flatMap_eq_nil_iff]
          intro entry hentry
          have := hrest.le_of_mem (List.of_mem_zip hentry).1
          rw [if_neg (by omega)]
        rw [hlater, List.append_nil]
      | succ k =>
        rw [List.getElem?_cons_succ] at hspan hitem
        have := hrest.le_of_mem (List.mem_iff_getElem?.mpr ⟨k, hspan⟩)
        rw [if_neg (by simp only; omega), List.nil_append]
        exact ih hrest hspan hitem

/-- Outside all spans nothing is selected. -/
theorem flatMap_owner_none {β γ : Type*} {spans : List (ℕ × ℕ)} {items : List β} {position : ℕ}
    (h : ∀ span ∈ spans, ¬ (span.1 ≤ position ∧ position < span.2)) (f : β → List γ) :
    ((spans.zip items).flatMap fun entry =>
      if entry.1.1 ≤ position ∧ position < entry.1.2 then f entry.2 else []) = [] := by
  rw [List.flatMap_eq_nil_iff]
  intro entry hentry
  rw [if_neg (h _ (List.of_mem_zip hentry).1)]

end Spans
