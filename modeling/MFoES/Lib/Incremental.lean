import Mathlib.Data.List.Basic
import Mathlib.Data.List.Chain
import Mathlib.Tactic.Common

/-!
# Incremental decoders

A decoder receives a stream in chunks and emits records.  This file says when
the cuts between the chunks do not matter.

*Scanners.*  A `Scanner` looks at the front of a stream and says what it sees:
nothing yet, an element no record starts at, or a record of some length.  Its
answers other than `wait` do not change when more elements follow.  The records
of a whole stream, `Scanner.records`, are what repeated scanning gives, and
mention no chunk.

*Advancing.*  `Scanner.Advances R R' out` says that a decoder which holds `R`
may emit `out` and hold `R'` instead: whatever follows, the records are the
same.  The relation composes, so it is the invariant of a decoder loop.

*Loops and runs.*  `loop` is a `for (;;)` whose body either breaks or goes
around once more, on fuel.  `loop_post` says what holds where it ends, and
`isChain_trail` how one pass goes on from another.  `loop_records` and
`loop_sound` lift soundness of one pass to the loop.  `runChunks` feeds chunk
after chunk, and `runChunks_records` lifts soundness of one feed to a run: the
run emits `records` of the concatenation.
-/

namespace Incremental

variable {α β σ : Type}

/-! ## Scanners -/

/-- What a scanner says about the front of a stream. -/
inductive Verdict (β : Type) where
  /-- Nothing can be said yet. -/
  | wait
  /-- No record starts at the first element. -/
  | skip
  /-- The first `n` elements are the record `b`. -/
  | emit (n : Nat) (b : β)
deriving DecidableEq

/-- A scanner.  Its verdicts make progress and survive what follows. -/
structure Scanner (α β : Type) where
  verdict : List α → Verdict β
  skip_ne_nil : ∀ {R}, verdict R = .skip → R ≠ []
  emit_pos : ∀ {R n b}, verdict R = .emit n b → 0 < n
  emit_le : ∀ {R n b}, verdict R = .emit n b → n ≤ R.length
  skip_append : ∀ {R} (X), verdict R = .skip → verdict (R ++ X) = .skip
  emit_append : ∀ {R n b} (X), verdict R = .emit n b → verdict (R ++ X) = .emit n b

namespace Scanner

variable (S : Scanner α β)

/-- The records of a whole stream. -/
def records (R : List α) : List β :=
  match _h : S.verdict R with
  | .wait => []
  | .skip => records (R.drop 1)
  | .emit n b => b :: records (R.drop n)
termination_by R.length
decreasing_by
  · have hne := List.length_pos_iff.mpr (S.skip_ne_nil _h)
    rw [List.length_drop]
    omega
  · have hpos := S.emit_pos _h
    have hle := S.emit_le _h
    rw [List.length_drop]
    omega

theorem records_of_wait {R : List α} (h : S.verdict R = .wait) : S.records R = [] := by
  rw [records]
  split <;> simp_all

theorem records_of_skip {R : List α} (h : S.verdict R = .skip) :
    S.records R = S.records (R.drop 1) := by
  conv => lhs; rw [records]
  split <;> simp_all

theorem records_of_emit {R : List α} {n : Nat} {b : β} (h : S.verdict R = .emit n b) :
    S.records R = b :: S.records (R.drop n) := by
  conv => lhs; rw [records]
  split <;> simp_all

/-- What holds of every record that a scan of some rest of the stream gives. -/
theorem records_forall {P : β → Prop} {R : List α}
    (h : ∀ i n b, S.verdict (R.drop i) = .emit n b → P b) : ∀ b ∈ S.records R, P b := by
  induction hk : R.length using Nat.strongRecOn generalizing R with
  | ind k ih =>
      subst hk
      have hrest : ∀ m, 0 < m → m ≤ R.length → ∀ b ∈ S.records (R.drop m), P b := by
        intro m hm hle
        refine ih _ ?_ (fun i n b hv => h (m + i) n b ?_) rfl
        · rw [List.length_drop]
          omega
        · rw [← List.drop_drop]
          exact hv
      cases hv : S.verdict R with
      | wait =>
          rw [S.records_of_wait hv]
          exact fun b hb => absurd hb List.not_mem_nil
      | skip =>
          rw [S.records_of_skip hv]
          exact hrest 1 Nat.one_pos (List.length_pos_iff.mpr (S.skip_ne_nil hv))
      | emit n b =>
          rw [S.records_of_emit hv]
          intro d hd
          rcases List.mem_cons.mp hd with rfl | hd
          · exact h 0 n d hv
          · exact hrest n (S.emit_pos hv) (S.emit_le hv) d hd

/-- A stream shorter than every record has none. -/
theorem records_of_short {m : Nat} (hm : ∀ {R n b}, S.verdict R = .emit n b → m ≤ n)
    (R : List α) (hR : R.length < m) : S.records R = [] := by
  induction hk : R.length generalizing R with
  | zero =>
      cases hv : S.verdict R with
      | wait => exact S.records_of_wait hv
      | skip => exact absurd (List.length_eq_zero_iff.mp hk) (S.skip_ne_nil hv)
      | emit n b =>
          have hle := S.emit_le hv
          have hpos := S.emit_pos hv
          omega
  | succ k ih =>
      cases hv : S.verdict R with
      | wait => exact S.records_of_wait hv
      | skip =>
          rw [S.records_of_skip hv]
          exact ih _ (by rw [List.length_drop]; omega) (by rw [List.length_drop]; omega)
      | emit n b =>
          have hle := S.emit_le hv
          have hmn := hm hv
          omega

theorem records_nil : S.records [] = [] :=
  S.records_of_short (m := 1) (fun h => S.emit_pos h) [] (by simp)

/-! ## Advancing -/

/-- A decoder that holds `R` may emit `out` and hold `R'` instead. -/
def Advances (R R' : List α) (out : List β) : Prop :=
  ∀ X, S.records (R ++ X) = out ++ S.records (R' ++ X)

variable {S}

theorem Advances.refl (R : List α) : S.Advances R R [] := fun _ => rfl

theorem Advances.trans {R R' R'' : List α} {out out' : List β}
    (h : S.Advances R R' out) (h' : S.Advances R' R'' out') :
    S.Advances R R'' (out ++ out') := by
  intro X
  rw [h X, h' X, List.append_assoc]

/-- Elements that are no part of a record may also be taken back. -/
theorem Advances.symm {R R' : List α} (h : S.Advances R R' []) : S.Advances R' R [] :=
  fun X => (h X).symm

theorem Advances.append {R R' : List α} {out : List β} (h : S.Advances R R' out)
    (Y : List α) : S.Advances (R ++ Y) (R' ++ Y) out := by
  intro X
  rw [List.append_assoc, List.append_assoc]
  exact h (Y ++ X)

/-- The records of what is held, once a decoder has emitted `out`. -/
theorem Advances.records {R R' : List α} {out : List β} (h : S.Advances R R' out) :
    S.records R = out ++ S.records R' := by
  simpa using h []

theorem advances_skip {R : List α} (h : S.verdict R = .skip) :
    S.Advances R (R.drop 1) [] := by
  intro X
  have hne := List.length_pos_iff.mpr (S.skip_ne_nil h)
  rw [S.records_of_skip (S.skip_append X h), List.drop_append_of_le_length hne, List.nil_append]

theorem advances_emit {R : List α} {n : Nat} {b : β} (h : S.verdict R = .emit n b) :
    S.Advances R (R.drop n) [b] := by
  intro X
  rw [S.records_of_emit (S.emit_append X h), List.drop_append_of_le_length (S.emit_le h)]
  rfl

/-- Elements no record starts at may be dropped together. -/
theorem advances_drop {R : List α} {n : Nat}
    (h : ∀ i, i < n → S.Advances (R.drop i) (R.drop (i + 1)) []) :
    S.Advances R (R.drop n) [] := by
  induction n with
  | zero => exact Advances.refl R
  | succ n ih => exact (ih fun i hi => h i (by omega)).trans (h n (by omega))

/-! ### Where a record can begin -/

/-- With the right continuation, a record begins at the front of `R`. -/
def CanBegin (S : Scanner α β) (R : List α) : Prop := ∃ X n b, S.verdict (R ++ X) = .emit n b

theorem CanBegin.of_append {R X : List α} (h : S.CanBegin (R ++ X)) : S.CanBegin R := by
  obtain ⟨Y, n, b, hv⟩ := h
  exact ⟨X ++ Y, n, b, List.append_assoc R X Y ▸ hv⟩

theorem CanBegin.not_skip {R : List α} (h : S.CanBegin R) : S.verdict R ≠ .skip := by
  intro hskip
  obtain ⟨X, n, b, hv⟩ := h
  rw [S.skip_append X hskip] at hv
  cases hv

/-- Where the scanner waits for a record that cannot come, none begins in what
is left either. -/
def GivesUp (S : Scanner α β) : Prop :=
  ∀ R, S.verdict R = .wait → ¬ S.CanBegin R → S.records (R.drop 1) = []

/-- Elements at which no record can begin may be dropped. -/
theorem GivesUp.advances (hS : S.GivesUp) {R : List α} {n : Nat}
    (h : ∀ i, i < n → ¬ S.CanBegin (R.drop i)) : S.Advances R (R.drop n) [] := by
  refine advances_drop fun i hi X => ?_
  have hno := h i hi
  rw [List.nil_append, ← List.drop_drop]
  cases hR : R.drop i with
  | nil => rfl
  | cons a Q =>
      rw [hR] at hno
      have hdrop : (a :: Q ++ X).drop 1 = (a :: Q).drop 1 ++ X := rfl
      cases hv : S.verdict (a :: Q ++ X) with
      | wait =>
          rw [S.records_of_wait hv, ← hdrop]
          exact (hS _ hv fun hc => hno hc.of_append).symm
      | skip => rw [S.records_of_skip hv, hdrop]
      | emit n b => exact absurd ⟨X, n, b, hv⟩ hno

end Scanner

/-! ## Records as parts of the stream -/

/-- The lists `rs` are disjoint parts of the stream, in its order. -/
def PartsInOrder : List (List α) → List α → Prop
  | [], _ => True
  | r :: rs, R => ∃ gap rest, R = gap ++ (r ++ rest) ∧ PartsInOrder rs rest

theorem PartsInOrder.length_le {rs : List (List α)} {R : List α} (h : PartsInOrder rs R) :
    rs.flatten.length ≤ R.length := by
  induction rs generalizing R with
  | nil => exact Nat.zero_le _
  | cons r rs ih =>
      obtain ⟨gap, rest, rfl, hrest⟩ := h
      have hle := ih hrest
      rw [List.flatten_cons, List.length_append, List.length_append, List.length_append]
      omega

theorem PartsInOrder.append_left {rs : List (List α)} {R : List α} (h : PartsInOrder rs R)
    (skipped : List α) : PartsInOrder rs (skipped ++ R) := by
  cases rs with
  | nil => trivial
  | cons r rs =>
      obtain ⟨gap, rest, rfl, hrest⟩ := h
      exact ⟨skipped ++ gap, rest, (List.append_assoc _ _ _).symm, hrest⟩

/-- The records of a scanner that emits what it reads are parts of the stream. -/
theorem Scanner.records_inOrder {S : Scanner α (List α)}
    (hS : ∀ {R n b}, S.verdict R = .emit n b → b = R.take n) (R : List α) :
    PartsInOrder (S.records R) R := by
  induction hk : R.length using Nat.strongRecOn generalizing R with
  | ind k ih =>
      subst hk
      have hrest : ∀ m, 0 < m → m ≤ R.length →
          PartsInOrder (S.records (R.drop m)) (R.drop m) := by
        intro m hm hle
        refine ih _ ?_ (R.drop m) rfl
        rw [List.length_drop]
        omega
      cases hv : S.verdict R with
      | wait =>
          rw [S.records_of_wait hv]
          trivial
      | skip =>
          have hparts := (hrest 1 Nat.one_pos
            (List.length_pos_iff.mpr (S.skip_ne_nil hv))).append_left (R.take 1)
          rw [List.take_append_drop] at hparts
          rw [S.records_of_skip hv]
          exact hparts
      | emit n b =>
          rw [S.records_of_emit hv, hS hv]
          refine ⟨[], R.drop n, ?_, hrest n (S.emit_pos hv) (S.emit_le hv)⟩
          rw [List.nil_append, List.take_append_drop]

/-! ## Streams of records

A stream in which record follows record gives a scanner nothing to skip. -/

section Stream

/-- `e` is recognised as the record `b`, whatever follows. -/
def Scanner.Encodes (S : Scanner α β) (e : List α) (b : β) : Prop :=
  ∀ X, S.verdict (e ++ X) = .emit e.length b

/-- `b` is recognised as a record, whatever follows. -/
def Scanner.IsRecord (S : Scanner α (List α)) (b : List α) : Prop :=
  ∀ X, S.verdict (b ++ X) = .emit b.length b

/-- The records of a stream that is made of records. -/
theorem records_flatten {S : Scanner α (List α)} {bs : List (List α)}
    (h : ∀ b ∈ bs, S.IsRecord b) : S.records bs.flatten = bs := by
  induction bs with
  | nil => exact S.records_nil
  | cons b bs ih =>
      rw [List.flatten_cons, S.records_of_emit (h b List.mem_cons_self _), List.drop_left,
        ih fun d hd => h d (List.mem_cons_of_mem _ hd)]

variable {S : Scanner α β}

/-- A record that is cut off is no record. -/
theorem Scanner.Encodes.records_of_cut {R X : List α} {b : β} (h : S.Encodes (R ++ X) b)
    (hX : X ≠ []) : S.records R = [] := by
  have hemit : S.verdict (R ++ X) = .emit (R ++ X).length b := by
    have := h []
    rwa [List.append_nil] at this
  cases hv : S.verdict R with
  | wait => exact S.records_of_wait hv
  | skip =>
      rw [S.skip_append X hv] at hemit
      cases hemit
  | emit n c =>
      have hn := S.emit_le hv
      have hpos := List.length_pos_iff.mpr hX
      rw [S.emit_append X hv, Verdict.emit.injEq, List.length_append] at hemit
      omega

/-- Encoded records are read off the front of a stream. -/
theorem records_flatMap_append {γ : Type} {enc : γ → List α} {rec : γ → β} {items : List γ}
    (h : ∀ x ∈ items, S.Encodes (enc x) (rec x)) (X : List α) :
    S.records (items.flatMap enc ++ X) = items.map rec ++ S.records X := by
  induction items with
  | nil => rfl
  | cons x items ih =>
      rw [List.flatMap_cons, List.append_assoc, S.records_of_emit (h x List.mem_cons_self _),
        List.drop_left, ih fun y hy => h y (List.mem_cons_of_mem _ hy)]
      rfl

/-- A stream of encoded records that is cut off anywhere has the first of its records. -/
theorem records_isPrefix {γ : Type} {enc : γ → List α} {rec : γ → β} {items : List γ}
    (h : ∀ x ∈ items, S.Encodes (enc x) (rec x)) {P : List α} (hP : P <+: items.flatMap enc) :
    S.records P <+: items.map rec := by
  induction items generalizing P with
  | nil =>
      rw [List.flatMap_nil, List.prefix_nil] at hP
      rw [hP, S.records_nil]
      exact List.nil_prefix
  | cons x items ih =>
      have hx := h x List.mem_cons_self
      rw [List.flatMap_cons] at hP
      rcases List.prefix_or_prefix_of_prefix hP (List.prefix_append _ _) with hcut | hwhole
      · obtain ⟨X, hX⟩ := hcut
        cases X with
        | nil =>
            rw [List.append_nil] at hX
            rw [hX, ← List.append_nil (enc x), S.records_of_emit (hx []), List.drop_left,
              S.records_nil]
            exact List.prefix_append [rec x] _
        | cons y X =>
            rw [← hX] at hx
            rw [hx.records_of_cut (List.cons_ne_nil y X)]
            exact List.nil_prefix
      · obtain ⟨Q, rfl⟩ := hwhole
        rw [S.records_of_emit (hx Q), List.drop_left, List.map_cons]
        rw [List.prefix_append_right_inj] at hP
        exact (List.cons_prefix_cons).mpr
          ⟨rfl, ih (fun y hy => h y (List.mem_cons_of_mem _ hy)) hP⟩

/-- What is held, with what is still to come, is a sequence of encoded records. -/
def Scanner.OnRecords (S : Scanner α β) (R X : List α) : Prop :=
  ∃ es : List (List α), (∀ e ∈ es, ∃ b, S.Encodes e b) ∧ R ++ X = es.flatten

theorem Scanner.OnRecords.append {R Y X : List α} (h : S.OnRecords R (Y ++ X)) :
    S.OnRecords (R ++ Y) X := by
  obtain ⟨es, hes, heq⟩ := h
  exact ⟨es, hes, by rw [List.append_assoc, heq]⟩

theorem Scanner.OnRecords.not_skip {R X : List α} (h : S.OnRecords R X) :
    S.verdict R ≠ .skip := by
  intro hskip
  obtain ⟨es, hes, hX⟩ := h
  have hskip' := S.skip_append X hskip
  cases es with
  | nil =>
      rw [hX] at hskip'
      exact S.skip_ne_nil hskip' rfl
  | cons e es =>
      obtain ⟨b, hb⟩ := hes e List.mem_cons_self
      rw [hX, List.flatten_cons, hb] at hskip'
      cases hskip'

theorem Scanner.OnRecords.emit {R X : List α} (h : S.OnRecords R X) {n : Nat} {b : β}
    (hemit : S.verdict R = .emit n b) : S.OnRecords (R.drop n) X := by
  obtain ⟨es, hes, hX⟩ := h
  have hemit' := S.emit_append X hemit
  have hle := S.emit_le hemit
  cases es with
  | nil =>
      rw [hX] at hemit'
      have hpos := S.emit_pos hemit'
      have hnil := S.emit_le hemit'
      rw [List.flatten_nil, List.length_nil] at hnil
      omega
  | cons e es =>
      obtain ⟨d, hd⟩ := hes e List.mem_cons_self
      rw [hX, List.flatten_cons, hd] at hemit'
      cases hemit'
      refine ⟨es, fun f hf => hes f (List.mem_cons_of_mem _ hf), ?_⟩
      rw [← List.drop_append_of_le_length hle, hX, List.flatten_cons, List.drop_left]

end Stream

/-! ## Loops -/

/-- What one pass through a loop body does. -/
inductive Pass (σ β : Type) where
  /-- `break`. -/
  | done (s : σ)
  /-- Go around once more, after emitting `out`. -/
  | again (s : σ) (out : List β)

/-- A `for (;;)` on fuel. -/
def loop (pass : σ → Pass σ β) : Nat → σ → σ × List β
  | 0, s => (s, [])
  | fuel + 1, s =>
      match pass s with
      | .done t => (t, [])
      | .again t out =>
          let r := loop pass fuel t
          (r.1, out ++ r.2)

/-- The states a loop starts a pass in. -/
def visits (pass : σ → Pass σ β) : Nat → σ → List σ
  | 0, _ => []
  | fuel + 1, s =>
      s :: match pass s with
      | .done _ => []
      | .again t _ => visits pass fuel t

/-- A pass that goes around advances what is held, and holds less than before. -/
def Pass.Moves (S : Scanner α β) (unread : σ → List α) (s : σ) : Pass σ β → Prop
  | .done _ => True
  | .again t out =>
      S.Advances (unread s) (unread t) out ∧ (unread t).length < (unread s).length

/-- A pass that moves, and breaks only where no record is held. -/
def Pass.Sound (S : Scanner α β) (unread : σ → List α) (s : σ) : Pass σ β → Prop
  | .done _ => S.records (unread s) = []
  | .again t out =>
      S.Advances (unread s) (unread t) out ∧ (unread t).length < (unread s).length

theorem Pass.Sound.moves {S : Scanner α β} {unread : σ → List α} {s : σ} {p : Pass σ β}
    (h : p.Sound S unread s) : p.Moves S unread s := by
  cases p with
  | done t => trivial
  | again t out => exact h

/-- A pass that breaks gives nothing away. -/
def Pass.Keeps (S : Scanner α β) (unread : σ → List α) (s : σ) : Pass σ β → Prop
  | .done t => S.Advances (unread s) (unread t) []
  | .again _ _ => True

theorem loop_zero (pass : σ → Pass σ β) (s : σ) : loop pass 0 s = (s, []) := rfl

theorem loop_succ (pass : σ → Pass σ β) (fuel : Nat) (s : σ) :
    loop pass (fuel + 1) s =
      match pass s with
      | .done t => (t, [])
      | .again t out => ((loop pass fuel t).1, out ++ (loop pass fuel t).2) :=
  rfl

theorem visits_zero (pass : σ → Pass σ β) (s : σ) : visits pass 0 s = [] := rfl

theorem visits_succ (pass : σ → Pass σ β) (fuel : Nat) (s : σ) :
    visits pass (fuel + 1) s = s ::
      match pass s with
      | .done _ => []
      | .again t _ => visits pass fuel t :=
  rfl

/-- What a pass keeps holds in every state a loop visits, and where it ends. -/
theorem loop_invariant {pass : σ → Pass σ β} {P : σ → Prop}
    (hdone : ∀ {s t}, P s → pass s = .done t → P t)
    (hagain : ∀ {s t out}, P s → pass s = .again t out → P t) (fuel : Nat) {s : σ} (hs : P s) :
    (∀ t ∈ visits pass fuel s, P t) ∧ P (loop pass fuel s).1 := by
  induction fuel generalizing s with
  | zero => exact ⟨fun _ ht => absurd ht List.not_mem_nil, hs⟩
  | succ fuel ih =>
      cases hp : pass s with
      | done t =>
          simp only [visits_succ, loop_succ, hp]
          exact ⟨fun u hu => List.mem_singleton.mp hu ▸ hs, hdone hs hp⟩
      | again t out =>
          obtain ⟨hvis, hend⟩ := ih (hagain hs hp)
          simp only [visits_succ, loop_succ, hp]
          refine ⟨fun u hu => ?_, hend⟩
          rcases List.mem_cons.mp hu with rfl | hu
          · exact hs
          · exact hvis u hu

/-- The same, where a pass that breaks changes nothing. -/
theorem loop_invariant_of_still {pass : σ → Pass σ β} {P : σ → Prop}
    (h : ∀ {s}, P s → pass s = .done s ∨ ∃ t out, pass s = .again t out ∧ P t)
    (fuel : Nat) {s : σ} (hs : P s) :
    (∀ t ∈ visits pass fuel s, P t) ∧ P (loop pass fuel s).1 := by
  refine loop_invariant (fun {s t} hs hp => ?_) (fun {s t out} hs hp => ?_) fuel hs
  all_goals
    rcases h hs with hdone | ⟨u, out', hagain, hu⟩
  · rw [hdone] at hp
    cases hp
    exact hs
  · rw [hagain] at hp
    cases hp
  · rw [hdone] at hp
    cases hp
  · rw [hagain] at hp
    cases hp
    exact hu

/-- What a loop emits is what its passes emit. -/
theorem mem_loop {pass : σ → Pass σ β} {b : β} {fuel : Nat} {s : σ} :
    b ∈ (loop pass fuel s).2 ↔
      ∃ t ∈ visits pass fuel s, ∃ u out, pass t = .again u out ∧ b ∈ out := by
  induction fuel generalizing s with
  | zero => simp [loop_zero, visits_zero]
  | succ fuel ih =>
      cases hp : pass s with
      | done u => simp [loop_succ, visits_succ, hp]
      | again u out => simp [loop_succ, visits_succ, hp, ih]

/-- A loop whose passes take a measure down ends where a pass breaks. -/
theorem loop_post {pass : σ → Pass σ β} {μ : σ → Nat} {Q : σ → Prop}
    (hagain : ∀ {s t out}, pass s = .again t out → μ t < μ s)
    (hdone : ∀ {s t}, pass s = .done t → Q t) {fuel : Nat} {s : σ} (hfuel : μ s < fuel) :
    Q (loop pass fuel s).1 := by
  induction fuel generalizing s with
  | zero => exact absurd hfuel (Nat.not_lt_zero _)
  | succ fuel ih =>
      rw [loop_succ]
      cases hp : pass s with
      | done t => exact hdone hp
      | again t out => exact ih (Nat.lt_of_lt_of_le (hagain hp) (Nat.le_of_lt_succ hfuel))

/-- The state a pass leaves. -/
def Pass.next : Pass σ β → σ
  | .done s => s
  | .again s _ => s

/-- What `f` says of the states a loop goes through, up to its end. -/
def trail {γ : Type} (pass : σ → Pass σ β) (f : σ → γ) (fuel : Nat) (s : σ) : List γ :=
  (visits pass fuel s).map f ++ [f (loop pass fuel s).1]

theorem trail_head? {γ : Type} {pass : σ → Pass σ β} {f : σ → γ} {fuel : Nat} {s : σ} :
    (trail pass f fuel s).head? = some (f s) := by
  cases fuel with
  | zero => rfl
  | succ fuel => rfl

/-- A trail is a chain when every pass goes on from the one before. -/
theorem isChain_trail {γ : Type} {R : γ → γ → Prop} {pass : σ → Pass σ β} {f : σ → γ}
    {fuel : Nat} {s : σ} : (trail pass f fuel s).IsChain R ↔
      ∀ t ∈ visits pass fuel s, R (f t) (f (pass t).next) := by
  induction fuel generalizing s with
  | zero => simp [trail, visits_zero]
  | succ fuel ih =>
      cases hp : pass s with
      | done t => simp [trail, visits_succ, loop_succ, hp, Pass.next]
      | again t out =>
          have htrail : trail pass f (fuel + 1) s = f s :: trail pass f fuel t := by
            simp [trail, visits_succ, loop_succ, hp]
          rw [htrail, List.isChain_cons, ih, trail_head?]
          simp [visits_succ, hp, Pass.next]

section Loop

variable {S : Scanner α β} {unread : σ → List α} {pass : σ → Pass σ β}

/-- A loop visits a state it breaks in. -/
theorem exists_done (fuel : Nat) (s : σ)
    (hpass : ∀ t ∈ visits pass fuel s, (pass t).Moves S unread t)
    (hfuel : (unread s).length < fuel) :
    ∃ t ∈ visits pass fuel s, ∃ u, pass t = .done u := by
  induction fuel generalizing s with
  | zero => exact absurd hfuel (Nat.not_lt_zero _)
  | succ fuel ih =>
      have hs := hpass s (by simp [visits_succ])
      cases hp : pass s with
      | done u => exact ⟨s, by simp [visits_succ], u, hp⟩
      | again t out =>
          rw [hp] at hs
          have hlt : (unread t).length < fuel := Nat.lt_of_lt_of_le hs.2 (Nat.le_of_lt_succ hfuel)
          obtain ⟨v, hv, hdone⟩ :=
            ih t (fun v hv => hpass v (by simp [visits_succ, hp, hv])) hlt
          exact ⟨v, by simp [visits_succ, hp, hv], hdone⟩

/-- A loop ends where it breaks, and advances what is held up to there. -/
theorem loop_of_done {fuel : Nat} {s t u : σ}
    (hpass : ∀ t ∈ visits pass fuel s, (pass t).Moves S unread t)
    (ht : t ∈ visits pass fuel s) (hu : pass t = .done u) :
    (loop pass fuel s).1 = u ∧ S.Advances (unread s) (unread t) (loop pass fuel s).2 := by
  induction fuel generalizing s with
  | zero => exact absurd ht List.not_mem_nil
  | succ fuel ih =>
      have hs := hpass s (by simp [visits_succ])
      cases hp : pass s with
      | done v =>
          simp only [visits_succ, hp, List.mem_singleton] at ht
          subst ht
          rw [hp] at hu
          cases hu
          rw [loop_succ, hp]
          exact ⟨rfl, .refl _⟩
      | again v out =>
          have hrest : ∀ w ∈ visits pass fuel v, (pass w).Moves S unread w :=
            fun w hw => hpass w (by simp [visits_succ, hp, hw])
          simp only [visits_succ, hp, List.mem_cons] at ht
          rcases ht with rfl | ht
          · rw [hp] at hu
            cases hu
          · rw [hp] at hs
            obtain ⟨hend, hadv⟩ := ih hrest ht
            simp only [loop_succ, hp]
            exact ⟨hend, hs.1.trans hadv⟩

/-- A loop emits the records of what is held. -/
theorem loop_records {fuel : Nat} {s : σ}
    (hpass : ∀ t ∈ visits pass fuel s, (pass t).Sound S unread t)
    (hfuel : (unread s).length < fuel) : S.records (unread s) = (loop pass fuel s).2 := by
  have hmove := fun t ht => (hpass t ht).moves
  obtain ⟨t, ht, u, hu⟩ := exists_done fuel s hmove hfuel
  have hend := hpass t ht
  rw [hu] at hend
  have hrec := (loop_of_done hmove ht hu).2.records
  rw [hrec, show S.records (unread t) = [] from hend, List.append_nil]

/-- A loop whose passes give nothing away advances what is held, and leaves no
record behind. -/
theorem loop_sound {fuel : Nat} {s : σ}
    (hpass : ∀ t ∈ visits pass fuel s, (pass t).Sound S unread t)
    (hfuel : (unread s).length < fuel)
    (hkeep : ∀ t ∈ visits pass fuel s, (pass t).Keeps S unread t) :
    S.Advances (unread s) (unread (loop pass fuel s).1) (loop pass fuel s).2 ∧
      S.records (unread (loop pass fuel s).1) = [] := by
  have hmove := fun t ht => (hpass t ht).moves
  obtain ⟨t, ht, u, hu⟩ := exists_done fuel s hmove hfuel
  obtain ⟨hloop, hadv⟩ := loop_of_done hmove ht hu
  have hend := hpass t ht
  have hk := hkeep t ht
  rw [hu] at hend hk
  have hk' : S.Advances (unread t) (unread u) [] := hk
  have hrec := hk'.records
  rw [show S.records (unread t) = [] from hend, List.nil_append] at hrec
  rw [hloop]
  refine ⟨?_, hrec.symm⟩
  have h := hadv.trans hk'
  rw [List.append_nil] at h
  exact h

end Loop

/-! ## Runs over chunks -/

/-- Feed chunk after chunk. -/
def runChunks (feed : σ → List α → σ × List β) : σ → List (List α) → σ × List β
  | s, [] => (s, [])
  | s, c :: cs =>
      let r := feed s c
      let t := runChunks feed r.1 cs
      (t.1, r.2 ++ t.2)

theorem runChunks_append (feed : σ → List α → σ × List β) :
    ∀ (s : σ) (cs ds : List (List α)),
      runChunks feed s (cs ++ ds) =
        ((runChunks feed (runChunks feed s cs).1 ds).1,
          (runChunks feed s cs).2 ++ (runChunks feed (runChunks feed s cs).1 ds).2)
  | _, [], _ => rfl
  | s, c :: cs, ds => by
      simp only [List.cons_append, runChunks, runChunks_append feed _ cs ds, List.append_assoc]

/-- What holds after every feed holds after every run. -/
theorem runChunks_post {feed : σ → List α → σ × List β} {P : σ → Prop}
    (hfeed : ∀ s c, P (feed s c).1) {s : σ} (hs : P s) (cs : List (List α)) :
    P (runChunks feed s cs).1 := by
  induction cs generalizing s with
  | nil => exact hs
  | cons c cs ih => exact ih (hfeed s c)

/-- `P` holds of every feed of a run. -/
def Along (feed : σ → List α → σ × List β) (P : σ → List α → Prop) : σ → List (List α) → Prop
  | _, [] => True
  | s, c :: cs => P s c ∧ Along feed P (feed s c).1 cs

instance Along.decidable {feed : σ → List α → σ × List β} {P : σ → List α → Prop}
    [∀ s c, Decidable (P s c)] : ∀ (s : σ) (cs : List (List α)), Decidable (Along feed P s cs)
  | _, [] => inferInstanceAs (Decidable True)
  | s, c :: cs =>
      have : Decidable (Along feed P (feed s c).1 cs) := Along.decidable (feed s c).1 cs
      inferInstanceAs (Decidable (P s c ∧ Along feed P (feed s c).1 cs))

theorem Along.mono {feed : σ → List α → σ × List β} {P Q : σ → List α → Prop}
    (h : ∀ s c, P s c → Q s c) {cs : List (List α)} {s : σ} (hP : Along feed P s cs) :
    Along feed Q s cs := by
  induction cs generalizing s with
  | nil => trivial
  | cons c cs ih => exact ⟨h _ _ hP.1, ih hP.2⟩

theorem Along.of_append {feed : σ → List α → σ × List β} {P : σ → List α → Prop}
    {cs ds : List (List α)} {s : σ} (h : Along feed P s (cs ++ ds)) : Along feed P s cs := by
  induction cs generalizing s with
  | nil => trivial
  | cons c cs ih => exact ⟨h.1, ih h.2⟩

theorem along_of_forall {feed : σ → List α → σ × List β} {P : σ → List α → Prop}
    (h : ∀ s c, P s c) (s : σ) (cs : List (List α)) : Along feed P s cs := by
  induction cs generalizing s with
  | nil => trivial
  | cons c cs ih => exact ⟨h s c, ih (feed s c).1⟩

/-- `P` holds of what a run emits when it holds of what each feed emits. -/
theorem forall_mem_runChunks {feed : σ → List α → σ × List β} {P : β → Prop}
    {cs : List (List α)} {s : σ} : (∀ b ∈ (runChunks feed s cs).2, P b) ↔
      Along feed (fun s c => ∀ b ∈ (feed s c).2, P b) s cs := by
  induction cs generalizing s with
  | nil => simp [runChunks, Along]
  | cons c cs ih => simp only [runChunks, Along, List.forall_mem_append, ih]

/-- A feed to a decoder that holds no record advances what is held and leaves no
record behind. -/
def FeedSound (S : Scanner α β) (unread : σ → List α) (feed : σ → List α → σ × List β)
    (s : σ) (c : List α) : Prop :=
  S.records (unread s) = [] →
    S.Advances (unread s ++ c) (unread (feed s c).1) (feed s c).2 ∧
      S.records (unread (feed s c).1) = []

theorem runChunks_advances {S : Scanner α β} {unread : σ → List α}
    {feed : σ → List α → σ × List β} {cs : List (List α)} {s : σ}
    (h : Along feed (FeedSound S unread feed) s cs) (hs : S.records (unread s) = []) :
    S.Advances (unread s ++ cs.flatten) (unread (runChunks feed s cs).1)
        (runChunks feed s cs).2 ∧
      S.records (unread (runChunks feed s cs).1) = [] := by
  induction cs generalizing s with
  | nil =>
      rw [List.flatten_nil, List.append_nil]
      exact ⟨.refl _, hs⟩
  | cons c cs ih =>
      obtain ⟨hfeed, hrest⟩ := h
      obtain ⟨hadv, hend⟩ := hfeed hs
      obtain ⟨hadv', hend'⟩ := ih hrest hend
      refine ⟨?_, hend'⟩
      rw [List.flatten_cons, ← List.append_assoc]
      exact (hadv.append cs.flatten).trans hadv'

/-- A run from an empty hold emits the records of the stream, however it is cut. -/
theorem runChunks_records {S : Scanner α β} {unread : σ → List α}
    {feed : σ → List α → σ × List β} {cs : List (List α)} {s : σ} (hs : unread s = [])
    (h : Along feed (FeedSound S unread feed) s cs) :
    (runChunks feed s cs).2 = S.records cs.flatten := by
  obtain ⟨hadv, hend⟩ := runChunks_advances h (by rw [hs]; exact S.records_nil)
  have hrec := hadv.records
  rw [hs, List.nil_append, hend, List.append_nil] at hrec
  exact hrec.symm

end Incremental
