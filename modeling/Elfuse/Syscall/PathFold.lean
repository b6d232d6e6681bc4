/-
Folding `//` runs and `.` components out of a path, in place.

`path_fold_components` reads a string and writes the folded one, which may begin at
the same address. What has been written stays behind what has been read: each name
that is copied had a slash before it. So the loop works on the text that is still
ahead, and that text is as it was.

* `pathFold_keeps_meaning` — what the folded text is.
-/
import Mathlib.Data.List.Infix
import Elfuse.Syscall.SysrootOpen

namespace Elfuse

open List FileTree Segments

/-! ### The loop -/

/-- `while (f(*p)) p++` -/
def scanWhile (f : UInt8 → Bool) (m : ℕ → UInt8) : ℕ → ℕ → ℕ
  | 0, p => p
  | fuel + 1, p => if f (m p) then scanWhile f m fuel (p + 1) else p

def store (m : ℕ → UInt8) (a : ℕ) (l : Text) (b : ℕ) : UInt8 :=
  if a ≤ b then l[b - a]?.getD (m b) else m b

def memmove (m : ℕ → UInt8) (dst src n : ℕ) : ℕ → UInt8 := store m dst ((range' src n).map m)

def isSlash (c : UInt8) : Bool := c == slash

def isName (c : UInt8) : Bool := c != 0 && c != slash

/-- The loop of `path_fold_components`, with the memory `m` that both texts are in. -/
def foldLoop (out : ℕ) : ℕ → ℕ → ℕ → (ℕ → UInt8) → Option (ℕ → UInt8)
  | 0, _, _, _ => none
  | fuel + 1, p, w, m =>
    let seg := scanWhile isSlash m fuel p
    if m seg = 0 then
      if m p = slash then some (store (store m (out + w) [slash]) (out + w + 1) [0])
      else some (store m (out + w) [0])
    else
      let p := scanWhile isName m fuel seg
      let n := p - seg
      if n = 1 ∧ m seg = 46 ∧ m (scanWhile isSlash m fuel p) ≠ 0 then foldLoop out fuel p w m
      else
        let m := memmove (store m (out + w) [slash]) (out + w + 1) seg n
        foldLoop out fuel p (w + 1 + n) m

/-- `path_fold_components` -/
def pathFoldComponentsAt (fuel path out : ℕ) (m : ℕ → UInt8) : Option (ℕ → UInt8) :=
  foldLoop out fuel path 0 m

/-! ### Texts in memory -/

def TextAt (m : ℕ → UInt8) (a : ℕ) (l : Text) : Prop := (range' a l.length).map m = l

variable {m : ℕ → UInt8} {a b p w out fuel : ℕ} {l r tail : Text} {ps : List (Text × Text)}

lemma textAt_append : TextAt m a (l ++ r) ↔ TextAt m a l ∧ TextAt m (a + l.length) r := by
  rw [TextAt, length_append, ← range'_append_1, map_append]
  constructor
  · intro h
    exact append_inj h (by simp)
  · rintro ⟨hl, hr⟩
    rw [hl, hr]

lemma textAt_cons {c : UInt8} : TextAt m a (c :: l) ↔ m a = c ∧ TextAt m (a + 1) l := by
  simp [TextAt, range'_succ]

lemma store_outside (h : b < a ∨ a + l.length ≤ b) : store m a l b = m b := by
  rw [store]
  split
  · rw [getElem?_eq_none (by omega)]
    rfl
  · rfl

lemma store_store : store (store m a l) (a + l.length) r = store m a (l ++ r) := by
  funext b
  simp only [store, getElem?_append]
  grind

lemma TextAt.store (h : TextAt m p r) (hd : p + r.length ≤ a ∨ a + l.length ≤ p) :
    TextAt (store m a l) p r := by
  refine (map_congr_left fun b hb => store_outside ?_).trans h
  rw [mem_range'_1] at hb
  omega

lemma scanWhile_text {f : UInt8 → Bool} {c : UInt8} (hm : TextAt m p (l ++ c :: r))
    (hl : ∀ d ∈ l, f d) (hc : f c = false) (hfuel : l.length ≤ fuel) :
    scanWhile f m fuel p = p + l.length := by
  induction l generalizing p fuel with
  | nil =>
    cases fuel with
    | zero => rfl
    | succ fuel => rw [scanWhile, (textAt_cons.mp hm).1, hc]; rfl
  | cons d l ih =>
    obtain ⟨hd, hl⟩ := forall_mem_cons.mp hl
    obtain ⟨hp, hm⟩ := textAt_cons.mp hm
    cases fuel with
    | zero => cases hfuel
    | succ fuel =>
      rw [scanWhile, hp, if_pos hd, ih hm hl (Nat.le_of_succ_le_succ hfuel), length_cons]
      omega

/-- The slashes ahead end at a name, or at the end of the text. -/
lemma scan_slashes (hcut : Segments.WellCut slash ps) (htail : ∀ c ∈ tail, c = slash)
    (hnul : 0 ∉ glue ps ++ tail) (hm : TextAt m p (glue ps ++ tail ++ [0]))
    (hfuel : (glue ps ++ tail).length ≤ fuel) :
    scanWhile isSlash m fuel p = p + ((ps.head?.map Prod.fst).getD tail).length ∧
      (m (scanWhile isSlash m fuel p) = 0 ↔ ps = []) := by
  cases ps with
  | nil =>
    have hscan := scanWhile_text (f := isSlash) hm (by simpa [glue, isSlash] using htail) rfl hfuel
    have hend := (textAt_cons.mp (textAt_append.mp hm).2).1
    rw [hscan]
    exact ⟨rfl, iff_of_true hend rfl⟩
  | cons q ps =>
    obtain ⟨run, word⟩ := q
    obtain ⟨-, hrun, hw, hword⟩ := hcut _ mem_cons_self
    obtain ⟨c, word, rfl⟩ := exists_cons_of_ne_nil hw
    have htext : glue ((run, c :: word) :: ps) ++ tail ++ [0] =
        run ++ c :: (word ++ glue ps ++ tail ++ [0]) := by simp [glue]
    rw [htext] at hm
    have hc : c ≠ slash := fun h => hword (h ▸ mem_cons_self)
    have hlen : run.length ≤ fuel := by
      simp only [glue, flatMap_cons, length_append] at hfuel
      omega
    have hscan := scanWhile_text hm (f := isSlash) (by simpa [isSlash] using hrun)
      (by simp [isSlash, hc]) hlen
    have hend := (textAt_cons.mp (textAt_append.mp hm).2).1
    rw [hscan, hend]
    refine ⟨rfl, iff_of_false ?_ (cons_ne_nil _ _)⟩
    rintro rfl
    exact hnul (by simp [glue])

lemma name_ends (hcut : Segments.WellCut slash ps) (htail : ∀ c ∈ tail, c = slash) :
    ∃ d r, glue ps ++ tail ++ [0] = d :: r ∧ isName d = false := by
  by_cases hps : ps = []
  · subst hps
    cases tail with
    | nil => exact ⟨0, [], rfl, rfl⟩
    | cons c tail => exact ⟨c, tail ++ [0], rfl, by rw [htail c mem_cons_self]; rfl⟩
  · have habs := glue_absolute hcut hps (tail ++ [0])
    obtain ⟨r, hr⟩ := head?_eq_some_iff.mp (isAbsolute_iff.mp habs)
    exact ⟨slash, r, by rw [append_assoc, hr], rfl⟩

lemma memmove_name (h : TextAt m p l) (hd : p + l.length ≤ a ∨ a < p) :
    memmove (store m a [slash]) (a + 1) p l.length = store m a (slash :: l) := by
  have hl := h.store (l := [slash]) hd
  rw [memmove, hl]
  exact store_store

/-- The run lemma, by induction on the pieces ahead.  `w` bytes have been written,
behind the place that is read or beyond the text. -/
lemma foldLoop_stores (hcut : Segments.WellCut slash ps) (htail : ∀ c ∈ tail, c = slash)
    (hnul : 0 ∉ glue ps ++ tail) (hm : TextAt m p (glue ps ++ tail ++ [0]))
    (hout : out + w ≤ p ∨ p + (glue ps ++ tail).length < out)
    (hfuel : (glue ps ++ tail).length < fuel) : foldLoop out fuel p w m = some (store m (out + w)
      (prefixed slash (foldPieces ps) ++ (if tail = [] then [] else [slash]) ++ [0])) := by
  induction ps generalizing p w m fuel with
  | nil =>
    obtain ⟨fuel, rfl⟩ := Nat.exists_eq_add_one_of_ne_zero (Nat.ne_zero_of_lt hfuel)
    obtain ⟨-, hend⟩ := scan_slashes hcut htail hnul hm (Nat.le_of_lt_succ hfuel)
    rw [foldLoop, if_pos (hend.mpr rfl)]
    cases tail with
    | nil =>
      have hp : m p = 0 := (textAt_cons.mp hm).1
      rw [hp, if_neg (by decide)]
      rfl
    | cons c tail =>
      have hp : m p = c := (textAt_cons.mp hm).1
      rw [hp, htail c mem_cons_self, if_pos rfl]
      exact congrArg some store_store
  | cons q ps ih =>
    obtain ⟨fuel, rfl⟩ := Nat.exists_eq_add_one_of_ne_zero (Nat.ne_zero_of_lt hfuel)
    obtain ⟨hseg, hend⟩ := scan_slashes hcut htail hnul hm (Nat.le_of_lt_succ hfuel)
    obtain ⟨run, word⟩ := q
    obtain ⟨⟨hrun, -, hw, hword⟩, hcut⟩ := forall_mem_cons.mp hcut
    have htext : glue ((run, word) :: ps) ++ tail = run ++ (word ++ (glue ps ++ tail)) := by
      simp [glue]
    rw [htext] at hnul hm hout hfuel
    simp only [length_append] at hout hfuel
    rw [append_assoc, append_assoc, textAt_append, textAt_append] at hm
    obtain ⟨-, hmw, hmr⟩ := hm
    have hpos : 0 < run.length := length_pos_of_ne_nil hrun
    have hname : ∀ c ∈ word, isName c := by
      intro c hc
      have h0 : c ≠ 0 := by rintro rfl; exact hnul (by simp [hc])
      have h1 : c ≠ slash := by rintro rfl; exact hword hc
      simp [isName, h0, h1]
    obtain ⟨d, r, hr, hd⟩ := name_ends hcut htail
    have hscan := scanWhile_text (textAt_append.mpr ⟨hmw, hr ▸ hmr⟩) hname hd
      (by omega : word.length ≤ fuel)
    have hnul : 0 ∉ glue ps ++ tail := fun h => hnul (by simp [h])
    obtain ⟨-, hdone⟩ := scan_slashes hcut htail hnul hmr
      (by simp; omega : (glue ps ++ tail).length ≤ fuel)
    -- the look ahead tells whether the `.` is the last component
    have hdot : (word.length = 1 ∧ m (p + run.length) = 46 ∧
        m (scanWhile isSlash m fuel (p + run.length + word.length)) ≠ 0) ↔
        word = dot ∧ ps ≠ [] := by
      obtain ⟨c, word, rfl⟩ := exists_cons_of_ne_nil hw
      rw [(textAt_cons.mp hmw).1, ne_eq, hdone]
      simp [dot]
      tauto
    rw [foldLoop]
    dsimp only
    change _ = p + run.length at hseg
    rw [hseg] at hend ⊢
    rw [if_neg fun h => cons_ne_nil _ _ (hend.mp h), hscan, Nat.add_sub_cancel_left]
    simp only [hdot, foldPieces_cons]
    by_cases h : word = dot ∧ ps ≠ []
    · -- nothing is written, and the place that is read moves on
      rw [if_pos h, if_pos h]
      refine ih hcut hnul hmr ?_ ?_ <;> rw [length_append] <;> omega
    · have hto : out + (w + 1 + word.length) = out + w + (slash :: word).length := by
        rw [length_cons]
        omega
      rw [if_neg h, if_neg h, memmove_name hmw (by omega)]
      refine (ih hcut hnul (hmr.store ?_) ?_ ?_).trans ?_
      · rw [← hto]
        simp only [length_append, length_singleton]
        omega
      · rw [length_append]
        omega
      · rw [length_append]
        omega
      · rw [hto, store_store]
        simp [prefixed]

/-! ### The folded text -/

lemma keptNames_keptNames (cs : List Text) : keptNames (keptNames cs) = keptNames cs := by
  rcases eq_nil_or_concat cs with rfl | ⟨cs, c, rfl⟩
  · rfl
  · simp [keptNames]

lemma prefixed_length_le (hcut : Segments.WellCut slash ps) :
    (prefixed slash (foldPieces ps)).length ≤ (glue ps).length := by
  induction ps with
  | nil => rfl
  | cons q ps ih =>
    obtain ⟨⟨hrun, -⟩, hcut⟩ := forall_mem_cons.mp hcut
    have hpos := length_pos_of_ne_nil hrun
    have hle := ih hcut
    rw [foldPieces_cons]
    simp only [prefixed, glue] at hle ⊢
    split
    · simp only [flatMap_cons, length_append]
      omega
    · simp only [flatMap_cons, length_append, length_cons]
      omega

lemma suffix_of_append {c : Text} (hc : slash ∉ c) (h : slash :: l <:+ c ++ r) :
    slash :: l <:+ r := by
  induction c with
  | nil => exact h
  | cons d c ih =>
    obtain ⟨hd, hc⟩ := not_or.mp (mt mem_cons.mpr hc)
    rcases suffix_cons_iff.mp h with h | h
    · exact absurd (cons.inj h).1 hd
    · exact ih hc h

/-- What stands behind a slash of a folded text. -/
lemma behind_slash {cs : List Text} (hcs : ∀ c ∈ cs, c ≠ [] ∧ slash ∉ c)
    (hdots : ∀ c ∈ cs.dropLast, c ≠ dot) (htail : tail = [] ∨ tail = [slash])
    (h : slash :: l <:+ prefixed slash cs ++ tail) :
    l.head? ≠ some slash ∧ ([46, slash] <+: l → l = [46, slash]) := by
  induction cs with
  | nil =>
    rcases htail with rfl | rfl
    · simp [prefixed] at h
    · obtain rfl : l = [] := by simpa [prefixed, suffix_cons_iff] using h
      simp
  | cons c cs ih =>
    obtain ⟨⟨hne, hc⟩, hgood⟩ := forall_mem_cons.mp hcs
    have htext : prefixed slash (c :: cs) ++ tail =
        slash :: (c ++ (prefixed slash cs ++ tail)) := by
      simp [prefixed]
    rw [htext, suffix_cons_iff] at h
    rcases h with h | h
    · obtain ⟨d, c, rfl⟩ := exists_cons_of_ne_nil hne
      obtain rfl := (cons.inj h).2
      obtain ⟨hd, hrest⟩ := not_or.mp (mt mem_cons.mpr hc)
      refine ⟨fun h => hd (Option.some_inj.mp h).symm, fun hp => ?_⟩
      obtain ⟨rfl, hnext⟩ := cons_prefix_cons.mp hp
      -- the component is `.`, so it is the last one
      cases c with
      | cons e c => exact absurd (cons_prefix_cons.mp hnext).1 (ne_of_not_mem_cons hrest)
      | nil =>
        cases cs with
        | cons c cs => exact absurd rfl (hdots dot (by simp [dot]))
        | nil => rcases htail with rfl | rfl <;> simp_all [prefixed]
    · exact ih hgood (fun d hd => hdots d (by cases cs <;> simp_all)) (suffix_of_append hc h)

/-- Folding keeps the meaning of a path and is safe in place: the string at `out`
becomes the folded one and no other byte changes, whether `out` is `path`, lies before
it, or lies behind the string. -/
theorem pathFold_keeps_meaning {path f : Text} (habs : isAbsolute path) (hnul : 0 ∉ path)
    (hf : f = pathFoldComponents path) :
    (∀ m p out fuel, TextAt m p (path ++ [0]) → out ≤ p ∨ p + path.length < out →
      path.length < fuel → pathFoldComponentsAt fuel p out m = some (store m out (f ++ [0]))) ∧
    components f =
      (components path).dropLast.filter (· ≠ dot) ++ (components path).getLast?.toList ∧
    ¬ [slash, slash] <:+: f ∧ (f.getLast? = some slash ↔ path.getLast? = some slash) ∧
    pathFoldComponents f = f ∧ (pathHasFoldable f → [slash, 46, slash] <:+ f) ∧
    f.length ≤ path.length := by
  have htext := @pieces_text _ _ slash path
  obtain ⟨ps, tail, hps, hcut, htail, -⟩ := absolute_pieces habs
  have hloop := hf
  rw [pathFoldComponents, hps] at hloop
  rw [hps] at htext
  have hfabs : isAbsolute f := hf ▸ fold_absolute habs
  have heq := hf.trans (fold_eq habs)
  have hcomps : components f = keptNames (components path) := hf ▸ components_fold habs
  have hend : f.getLast? = some slash ↔ path.getLast? = some slash := by
    have hne : f ≠ [] := by
      rintro rfl
      cases hfabs
    rw [← glue_slashed] at heq
    rw [heq] at hne ⊢
    rw [getLast_glue (wellCut_slashed keptNames_good) (by simp) hne]
    simp
  have hbehind : ∀ {l}, slash :: l <:+ f →
      l.head? ≠ some slash ∧ ([46, slash] <+: l → l = [46, slash]) := by
    intro l hl
    rw [heq] at hl
    refine behind_slash keptNames_good ?_ ?_ hl
    · rcases eq_nil_or_concat (components path) with h | ⟨cs, c, h⟩ <;> simp [keptNames, h]
    · split <;> simp
  refine ⟨fun m p out fuel hm hout hfuel => ?_, hcomps, ?_, hend, ?_, ?_, ?_⟩
  · rw [hloop]
    exact foldLoop_stores hcut htail (htext ▸ hnul) (htext ▸ hm) (htext ▸ hout) (htext ▸ hfuel)
  · rintro ⟨x, y, h⟩
    rw [append_assoc] at h
    exact (hbehind ⟨x, h⟩).1 rfl
  · rw [fold_eq hfabs, hcomps, keptNames_keptNames]
    simp only [hend]
    exact heq.symm
  · intro h
    obtain ⟨l, hl, hpre⟩ := any_eq_true.mp h
    rw [mem_tails] at hl
    rw [Bool.or_eq_true, isPrefixOf_iff_prefix, isPrefixOf_iff_prefix] at hpre
    rcases hpre with ⟨r, rfl⟩ | ⟨r, rfl⟩
    · exact absurd rfl (hbehind hl).1
    · have hr := (hbehind hl).2 ⟨r, rfl⟩
      exact (congrArg (slash :: ·) hr) ▸ hl
  · have hle := prefixed_length_le hcut
    rw [hloop, ← htext, length_append, length_append]
    have htail : (if tail = [] then [] else [slash]).length ≤ tail.length := by
      cases tail <;> simp
    exact Nat.add_le_add hle htail

theorem pathFold_keeps_meaning_inPlace : ∃ m',
    pathFoldComponentsAt 5 0 0 (store (fun _ => 0) 0 [47, 46, 47, 97]) = some m' ∧
      (range' 0 3).map m' = [47, 97, 0] :=
  ⟨_, (@pathFold_keeps_meaning [47, 46, 47, 97] _ (by decide) (by decide) rfl).1 _ 0 0 5
    rfl (.inl (Nat.le_refl 0)) (by decide), by decide⟩

end Elfuse
