/-
Texts cut at a separator.

`segments sep l` are the non-empty stretches of `l` between separators, and
`pieces sep l` the same with the run of separators before each of them, so that
the text can be put together again. A text is taken apart by its separators
wherever it is cut (`segments_append_sep`), and what is glued from segments
gives them back:

* `pieces_text`, `pieces_segments` — the pieces are the text, and its segments;
* `segments_glue`, `segments_join`, `segments_render` — three ways to write
  segments down;
* `cutLast_eq_some` — the text before and after the last separator;
* `startsWithin_iff` — one text starts with another and goes on at a separator.
-/
import Mathlib.Data.List.Basic

namespace Segments

open List

variable {α : Type*} [DecidableEq α] (sep : α)

/-- The segments of a text of which `seg` was just read. -/
def splitFrom (seg : List α) : List α → List (List α)
  | [] => if seg = [] then [] else [seg]
  | c :: l =>
    if c = sep then (if seg = [] then splitFrom [] l else seg :: splitFrom [] l)
    else splitFrom (seg ++ [c]) l

def segments (l : List α) : List (List α) := splitFrom sep [] l

/-- The pieces of a text of which the separators `run` and then `seg` were just read. -/
def piecesFrom (run seg : List α) : List α → List (List α × List α) × List α
  | [] => if seg = [] then ([], run) else ([(run, seg)], [])
  | c :: l =>
    if c = sep then
      (if seg = [] then piecesFrom (run ++ [c]) [] l
        else ((run, seg) :: (piecesFrom [c] [] l).1, (piecesFrom [c] [] l).2))
    else piecesFrom run (seg ++ [c]) l

/-- Each segment with the run of separators before it, and the run at the end. -/
def pieces (l : List α) : List (List α × List α) × List α := piecesFrom sep [] [] l

def glue (ps : List (List α × List α)) : List α := ps.flatMap fun p => p.1 ++ p.2

def join : List (List α) → List α
  | [] => []
  | [s] => s
  | s :: t => s ++ sep :: join t

def prefixed (ss : List (List α)) : List α := ss.flatMap fun s => sep :: s

/-- The canonical spelling of an absolute path. -/
def render (ss : List (List α)) : List α := if ss = [] then [sep] else prefixed sep ss

/-- The text before and after the last separator. -/
def cutLast : List α → Option (List α × List α)
  | [] => none
  | c :: l =>
    match cutLast l with
    | some (a, b) => some (c :: a, b)
    | none => if c = sep then some ([], l) else none

/-- `l` starts with `p` and ends there or goes on with a separator. -/
def startsWithin (p l : List α) : Bool :=
  p.isPrefixOf l && ((l.drop p.length).head? == none || (l.drop p.length).head? == some sep)

variable {sep} {p : List α} {ps : List (List α × List α)}

/-! ### Segments -/

@[simp] lemma segments_nil : segments sep ([] : List α) = [] := rfl

@[simp] lemma segments_sep_cons : segments sep (sep :: l) = segments sep l := by
  simp [segments, splitFrom]

lemma splitFrom_append_sep (seg l m : List α) :
    splitFrom sep seg (l ++ sep :: m) = splitFrom sep seg l ++ segments sep m := by
  induction l generalizing seg with
  | nil => by_cases h : seg = [] <;> simp [splitFrom, segments, h]
  | cons c l ih =>
    rw [cons_append, splitFrom, splitFrom]
    by_cases hc : c = sep
    · rw [if_pos hc, if_pos hc]
      by_cases h : seg = [] <;> simp [h, ih]
    · rw [if_neg hc, if_neg hc, ih]

/-- A text is cut at its separators. -/
lemma segments_append_sep (l m : List α) :
    segments sep (l ++ sep :: m) = segments sep l ++ segments sep m :=
  splitFrom_append_sep [] l m

lemma splitFrom_of_not_mem (seg : List α) (h : sep ∉ l) :
    splitFrom sep seg l = if seg ++ l = [] then [] else [seg ++ l] := by
  induction l generalizing seg with
  | nil => simp [splitFrom]
  | cons c l ih =>
    have hc : c ≠ sep := fun heq => h (heq ▸ mem_cons_self)
    rw [splitFrom, if_neg hc, ih _ fun hm => h (mem_cons_of_mem _ hm)]
    simp

lemma segments_of_not_mem (h : sep ∉ l) (hne : l ≠ []) : segments sep l = [l] := by
  rw [segments, splitFrom_of_not_mem [] h, nil_append, if_neg hne]

lemma mem_splitFrom (hseg : sep ∉ seg) (h : s ∈ splitFrom sep seg l) : s ≠ [] ∧ sep ∉ s := by
  induction l generalizing seg with
  | nil =>
    rw [splitFrom] at h
    split at h
    · cases h
    rename_i hne
    rw [mem_singleton.mp h]
    exact ⟨hne, hseg⟩
  | cons c l ih =>
    rw [splitFrom] at h
    split at h
    · split at h
      · exact ih (by simp) h
      rename_i hne
      rcases mem_cons.mp h with rfl | h
      · exact ⟨hne, hseg⟩
      · exact ih (by simp) h
    · rename_i hc
      exact ih (by simp [hseg, Ne.symm hc]) h

lemma mem_segments (h : s ∈ segments sep l) : s ≠ [] ∧ sep ∉ s :=
  mem_splitFrom (by simp) h

lemma segments_run (h : ∀ c ∈ run, c = sep) (l : List α) :
    segments sep (run ++ l) = segments sep l := by
  induction run with
  | nil => rfl
  | cons c run ih =>
    rw [h c mem_cons_self, cons_append, segments_sep_cons]
    exact ih fun d hd => h d (mem_cons_of_mem _ hd)

lemma splitFrom_eq_nil : splitFrom sep seg l = [] ↔ seg = [] ∧ ∀ c ∈ l, c = sep := by
  induction l generalizing seg with
  | nil => by_cases h : seg = [] <;> simp [splitFrom, h]
  | cons c l ih =>
    rw [splitFrom]
    by_cases hc : c = sep
    · by_cases h : seg = [] <;> simp [hc, h, ih]
    · simp [hc, ih]

/-- A text without segments is a run of separators. -/
lemma segments_eq_nil : segments sep l = [] ↔ ∀ c ∈ l, c = sep := by
  simp [segments, splitFrom_eq_nil]

lemma segments_append_run (h : ∀ c ∈ run, c = sep) (l : List α) :
    segments sep (l ++ run) = segments sep l := by
  cases run with
  | nil => rw [append_nil]
  | cons c run =>
    have hrun : ∀ d ∈ run, d = sep := fun d hd => h d (mem_cons_of_mem _ hd)
    rw [h c mem_cons_self, segments_append_sep, segments_eq_nil.mpr hrun, append_nil]

/-! ### Pieces -/

lemma piecesFrom_text (run seg l : List α) :
    glue (piecesFrom sep run seg l).1 ++ (piecesFrom sep run seg l).2 = run ++ seg ++ l := by
  induction l generalizing run seg with
  | nil => by_cases h : seg = [] <;> simp [piecesFrom, glue, h]
  | cons c l ih =>
    rw [piecesFrom]
    split
    · split
      · rename_i h
        rw [ih, h]
        simp
      have := ih [c] []
      simp only [glue, flatMap_cons, append_assoc] at this ⊢
      rw [this]
      simp
    · rw [ih]
      simp

lemma pieces_text (l : List α) : glue (pieces sep l).1 ++ (pieces sep l).2 = l :=
  piecesFrom_text [] [] l

lemma piecesFrom_segments (run seg l : List α) :
    (piecesFrom sep run seg l).1.map Prod.snd = splitFrom sep seg l := by
  induction l generalizing run seg with
  | nil => by_cases h : seg = [] <;> simp [piecesFrom, splitFrom, h]
  | cons c l ih =>
    rw [piecesFrom, splitFrom]
    split
    · split
      · exact ih _ _
      · rw [map_cons, ih]
    · exact ih _ _

lemma pieces_segments (l : List α) : (pieces sep l).1.map Prod.snd = segments sep l :=
  piecesFrom_segments [] [] l

/-- Runs of separators, each with a segment after it. -/
def WellCut (sep : α) (ps : List (List α × List α)) : Prop :=
  ∀ p ∈ ps, p.1 ≠ [] ∧ (∀ c ∈ p.1, c = sep) ∧ p.2 ≠ [] ∧ sep ∉ p.2

lemma piecesFrom_wellCut (hrun : ∀ c ∈ run, c = sep) (hseg : sep ∉ seg)
    (hne : run ≠ [] ∨ seg = [] ∧ l.head? = some sep) :
    WellCut sep (piecesFrom sep run seg l).1 ∧ ∀ c ∈ (piecesFrom sep run seg l).2, c = sep := by
  induction l generalizing run seg with
  | nil =>
    rw [piecesFrom]
    split
    · exact ⟨by simp [WellCut], hrun⟩
    rename_i h
    have hr : run ≠ [] := by
      rcases hne with hr | ⟨hs, -⟩
      · exact hr
      · exact absurd hs h
    refine ⟨?_, by simp⟩
    intro p hp
    rw [mem_singleton.mp hp]
    exact ⟨hr, hrun, h, hseg⟩
  | cons c l ih =>
    rw [piecesFrom]
    split
    · rename_i hc
      split
      · exact ih (forall_mem_append.mpr ⟨hrun, forall_mem_singleton.mpr hc⟩) (by simp)
          (.inl (by simp))
      rename_i h
      have hr : run ≠ [] := by
        rcases hne with hr | ⟨hs, -⟩
        · exact hr
        · exact absurd hs h
      obtain ⟨hcut, htail⟩ := @ih [c] [] (by simp [hc]) (by simp) (.inl (by simp))
      exact ⟨forall_mem_cons.mpr ⟨⟨hr, hrun, h, hseg⟩, hcut⟩, htail⟩
    · rename_i hc
      have hr : run ≠ [] := by
        rcases hne with hr | ⟨-, hs⟩
        · exact hr
        · exact absurd (by simpa using hs) hc
      exact ih hrun (by simp [hseg, Ne.symm hc]) (.inl hr)

lemma pieces_wellCut (h : l.head? = some sep) :
    WellCut sep (pieces sep l).1 ∧ ∀ c ∈ (pieces sep l).2, c = sep :=
  piecesFrom_wellCut (by simp) (by simp) (.inr ⟨rfl, h⟩)

lemma piecesFrom_word (h : sep ∉ w) (l : List α) :
    piecesFrom sep run seg (w ++ l) = piecesFrom sep run (seg ++ w) l := by
  induction w generalizing seg with
  | nil => simp
  | cons c w ih =>
    have hc : c ≠ sep := fun hc => h (hc ▸ mem_cons_self)
    rw [cons_append, piecesFrom, if_neg hc, ih fun hw => h (mem_cons_of_mem _ hw)]
    simp

lemma piecesFrom_run (h : ∀ c ∈ w, c = sep) (l : List α) :
    piecesFrom sep run [] (w ++ l) = piecesFrom sep (run ++ w) [] l := by
  induction w generalizing run with
  | nil => simp
  | cons c w ih =>
    rw [cons_append, piecesFrom, if_pos (h c mem_cons_self), if_pos rfl,
      ih fun c hc => h c (mem_cons_of_mem _ hc)]
    simp

/-- A text is cut where it was put together. -/
lemma pieces_glue (h : WellCut sep ps) : pieces sep (glue ps) = (ps, []) := by
  induction ps with
  | nil => rfl
  | cons p ps ih =>
    obtain ⟨run, w⟩ := p
    obtain ⟨hrun, hsep, hw, hword⟩ := h (run, w) mem_cons_self
    have hrest := ih fun p hp => h p (mem_cons_of_mem _ hp)
    have hglue : glue ((run, w) :: ps) = run ++ (w ++ glue ps) := by simp [glue]
    rw [hglue, pieces, piecesFrom_run hsep, piecesFrom_word hword, nil_append, nil_append]
    -- behind the first word there is nothing, or a separator
    cases ps with
    | nil =>
      rw [show glue ([] : List (List α × List α)) = [] from rfl, piecesFrom, if_neg hw]
    | cons q ps =>
      obtain ⟨hq, hqsep, -⟩ := h q (by simp)
      obtain ⟨c, r, hqr⟩ := exists_cons_of_ne_nil hq
      have hc : c = sep := hqsep c (hqr ▸ mem_cons_self)
      have hsplit : glue (q :: ps) = c :: (r ++ (q.2 ++ glue ps)) := by simp [glue, hqr]
      rw [hsplit] at hrest ⊢
      rw [pieces, piecesFrom, if_pos hc, if_pos rfl, nil_append] at hrest
      rw [piecesFrom, if_pos hc, if_neg hw, hrest]

lemma segments_glue (h : WellCut sep ps) {tail : List α}
    (htail : tail.head? = none ∨ tail.head? = some sep) :
    segments sep (glue ps ++ tail) = ps.map Prod.snd ++ segments sep tail := by
  induction ps with
  | nil => rfl
  | cons p ps ih =>
    obtain ⟨-, hrun, hne, hseg⟩ := h p mem_cons_self
    have hps : WellCut sep ps := fun q hq => h q (mem_cons_of_mem _ hq)
    have ih := ih hps
    rw [glue, flatMap_cons, append_assoc, append_assoc, segments_run hrun, ← glue]
    -- the segment ends where the next run, the tail or the text ends
    have hnext : glue ps ++ tail = [] ∨ ∃ m, glue ps ++ tail = sep :: m := by
      cases ps with
      | nil =>
        rcases htail with ht | ht
        · exact .inl (by simpa [glue] using ht)
        · obtain ⟨m, hm⟩ := head?_eq_some_iff.mp ht
          exact .inr ⟨m, by simpa [glue] using hm⟩
      | cons q qs =>
        obtain ⟨hq, hqrun, -, -⟩ := hps q mem_cons_self
        obtain ⟨c, r, hcr⟩ := exists_cons_of_ne_nil hq
        have hc : c = sep := hqrun c (hcr ▸ mem_cons_self)
        refine .inr ⟨r ++ q.2 ++ glue qs ++ tail, ?_⟩
        simp [glue, hcr, hc]
    rcases hnext with hnil | ⟨m, hm⟩
    · have : ps.map Prod.snd ++ segments sep tail = [] := by rw [← ih, hnil, segments_nil]
      rw [hnil, append_nil, segments_of_not_mem hseg hne, map_cons, cons_append, this]
    rw [hm, segments_sep_cons] at ih
    rw [hm, segments_append_sep, segments_of_not_mem hseg hne, ih]
    rfl

/-! ### Spellings -/

lemma segments_join : ∀ {ss : List (List α)}, (∀ s ∈ ss, s ≠ [] ∧ sep ∉ s) →
    segments sep (join sep ss) = ss
  | [], _ => rfl
  | [s], h => segments_of_not_mem (h s (by simp)).2 (h s (by simp)).1
  | s :: t :: ss, h => by
    obtain ⟨hne, hs⟩ := h s mem_cons_self
    rw [join, segments_append_sep, segments_of_not_mem hs hne,
      segments_join fun q hq => h q (mem_cons_of_mem _ hq)]
    · rfl
    · simp

omit [DecidableEq α] in
lemma join_getLast : ∀ {ss : List (List α)}, (∀ s ∈ ss, s ≠ [] ∧ sep ∉ s) →
    (join sep ss).getLast? ≠ some sep
  | [], _ => by simp [join]
  | [s], h => by
    intro hlast
    exact (h s (by simp)).2 (mem_of_getLast? hlast)
  | s :: t :: ss, h => by
    have ht := h t (by simp)
    have ih := join_getLast fun q hq => h q (mem_cons_of_mem _ hq)
    have hne : join sep (t :: ss) ≠ [] := by
      cases ss with
      | nil => exact ht.1
      | cons u ss => simp [join]
    obtain ⟨c, l, hcl⟩ := exists_cons_of_ne_nil hne
    rw [hcl] at ih
    rw [join, hcl, getLast?_append, getLast?_cons_cons]
    · rw [getLast?_eq_some_getLast (cons_ne_nil c l)] at ih ⊢
      exact ih
    · simp

lemma segments_append_prefixed (h : ∀ s ∈ ss, s ≠ [] ∧ sep ∉ s) (l : List α) :
    segments sep (l ++ prefixed sep ss) = segments sep l ++ ss := by
  induction ss generalizing l with
  | nil => simp [prefixed]
  | cons s ss ih =>
    obtain ⟨hne, hs⟩ := h s mem_cons_self
    have hsplit : l ++ prefixed sep (s :: ss) = (l ++ sep :: s) ++ prefixed sep ss := by
      simp [prefixed]
    rw [hsplit, ih fun q hq => h q (mem_cons_of_mem _ hq), segments_append_sep,
      segments_of_not_mem hs hne]
    simp

lemma segments_render (h : ∀ s ∈ ss, s ≠ [] ∧ sep ∉ s) : segments sep (render sep ss) = ss := by
  rw [render]
  split
  · rename_i hnil
    rw [hnil]
    simp
  · simpa using segments_append_prefixed h []

lemma cutLast_eq_none : cutLast sep l = none ↔ sep ∉ l := by
  induction l with
  | nil => simp [cutLast]
  | cons c l ih =>
    rw [cutLast]
    cases hcut : cutLast sep l with
    | some ab =>
      have hmem : sep ∈ l := by
        by_contra hno
        rw [ih.mpr hno] at hcut
        cases hcut
      simp [hmem]
    | none =>
      have hno := ih.mp hcut
      by_cases hc : c = sep
      · simp [hc]
      · simp [hc, hno, Ne.symm hc]

lemma cutLast_eq_some (h : cutLast sep l = some (a, b)) : l = a ++ sep :: b ∧ sep ∉ b := by
  induction l generalizing a with
  | nil => cases h
  | cons c l ih =>
    rw [cutLast] at h
    cases hcut : cutLast sep l with
    | some ab =>
      rw [hcut] at h
      cases h
      obtain ⟨hl, hb⟩ := ih hcut
      exact ⟨by rw [hl]; rfl, hb⟩
    | none =>
      rw [hcut] at h
      dsimp only at h
      split at h
      · rename_i hc
        cases h
        exact ⟨by rw [hc]; rfl, cutLast_eq_none.mp hcut⟩
      · cases h

/-! ### Starting with a text -/

lemma startsWithin_iff : startsWithin sep p l ↔ l = p ∨ ∃ m, l = p ++ sep :: m := by
  rw [startsWithin, Bool.and_eq_true, isPrefixOf_iff_prefix, Bool.or_eq_true]
  constructor
  · rintro ⟨⟨r, rfl⟩, hr⟩
    rw [drop_left] at hr
    cases r with
    | nil => exact .inl (append_nil p)
    | cons c r =>
      right
      exact ⟨r, by rw [show c = sep by simpa using hr]⟩
  · rintro (rfl | ⟨m, rfl⟩)
    · simp
    · exact ⟨prefix_append _ _, .inr (by rw [drop_left]; simp)⟩

lemma prefix_of_startsWithin (h : startsWithin sep p l) : segments sep p <+: segments sep l := by
  rcases startsWithin_iff.mp h with rfl | ⟨m, rfl⟩
  · exact prefix_refl _
  · rw [segments_append_sep]
    exact prefix_append _ _

omit [DecidableEq α] in
lemma render_append (hne : ss ≠ []) : render sep (ss ++ ts) = render sep ss ++ prefixed sep ts := by
  rw [render, render, if_neg (by simp [hne]), if_neg hne, prefixed, flatMap_append]
  rfl

lemma startsWithin_render (hne : ss ≠ []) (h : ss <+: ts) (l : List α)
    (hl : l.head? = none ∨ l.head? = some sep) :
    startsWithin sep (render sep ss) (render sep ts ++ l) := by
  obtain ⟨us, rfl⟩ := h
  rw [render_append hne, startsWithin_iff, append_assoc]
  cases us with
  | nil =>
    rcases hl with hl | hl
    · left
      rw [head?_eq_none_iff.mp hl]
      simp [prefixed]
    · obtain ⟨m, rfl⟩ := head?_eq_some_iff.mp hl
      exact .inr ⟨m, by simp [prefixed]⟩
  | cons u us =>
    right
    exact ⟨u ++ prefixed sep us ++ l, by simp [prefixed]⟩

end Segments
