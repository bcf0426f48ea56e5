import MFoES.Libgfx.StdVector
import MFoES.Lib.Transition
import Mathlib.Logic.Function.Basic

/-!
# Runs of freestanding vectors

Any number of vectors, and any order of their operations, where the platform may refuse every
request for memory.

* Every operation that may need more room calls `grow` first, and does its work on what came of it.
  `Finish` says what that work has to be like, and what follows for the operation (`Finish.meets`,
  `Finish.grows`).
* An operation is as it should be (`Op.Meets`) where the vector is `Safe` after it, and has the
  elements of the list operation, or its old ones if it could not grow.  That is so exactly under
  a condition on the vector before it (`Op.Holds`).
* `meets_iff` is that for runs.
-/

namespace MFoES.Libgfx.Freestanding

open Transition

namespace Vec

variable {sizeof : Nat}

/-- No element is behind the capacity, the capacity is there, and nothing was written outside. -/
structure Safe (sizeof : Nat) (v : Vec) : Prop where
  size_le : v.size ≤ v.cap
  backed : v.cap * sizeof ≤ v.room
  inside : ∀ w ∈ v.written, w.Inside

theorem Valid.safe {v : Vec} (h : v.Valid sizeof) : v.Safe sizeof :=
  ⟨h.size_le, Nat.le_of_eq h.room_eq.symm, h.inside⟩

/-! ## After `grow` -/

/-- There is too little capacity, and `realloc` gives nothing. -/
def GrowthFails (sizeof cap : Nat) (answer : Answer) (need : Nat) : Prop :=
  cap < need ∧ ∃ c, CapacityFor cap need c ∧ Refuses sizeof cap answer c

/-- The capacity is enough, or `grow` returns and `realloc` either gives nothing, or bytes that can
be counted.  Where there is enough capacity then, `E` holds, and where there is not, `R` does. -/
def Grows (sizeof cap : Nat) (answer : Answer) (need : Nat) (R E : Prop) : Prop :=
  need ≤ cap ∧ E ∨
    cap < need ∧ ∃ c, CapacityFor cap need c ∧
      (Refuses sizeof cap answer c ∧ R ∨ ¬ Refuses sizeof cap answer c ∧ Fits sizeof c ∧ E)

/-- An operation is as it should be. -/
structure Meets (sizeof : Nat) (fails : Prop) (old new : List (Elem sizeof)) (t : Vec) : Prop where
  safe : t.Safe sizeof
  kept : fails → t.elems sizeof = old
  listed : ¬ fails → t.elems sizeof = new

/-- The work of an operation after `grow`. -/
structure Finish (sizeof : Nat) (v : Vec) (need : Nat) (rest : Vec → Vec)
    (old new : List (Elem sizeof)) (R E : Prop) : Prop where
  cap : ∀ u, (rest u).cap = u.cap
  room : ∀ u, (rest u).room = u.room
  /-- Within the capacity, under `E`. -/
  within : ∀ u, u.Valid sizeof → need ≤ u.cap → u.size = v.size →
    u.elems sizeof = v.elems sizeof → E → (rest u).Valid sizeof ∧ (rest u).elems sizeof = new
  only : ∀ u, need ≤ u.cap → u.size = v.size → (rest u).elems sizeof = new → E
  /-- Where it could not grow, under `R`. -/
  refused : v.cap < need → R → (rest v).Valid sizeof ∧ (rest v).elems sizeof = old
  refusedOnly : v.cap < need → (rest v).Safe sizeof → (rest v).elems sizeof = old → R

theorem CapacityFor.unique {cap need c d : Nat} (hlt : cap < need) (hc : CapacityFor cap need c)
    (hd : CapacityFor cap need d) : c = d := by
  rw [← doubled_eq_some_iff hlt] at hc hd
  exact Option.some.inj (hc.symm.trans hd)

theorem grows_of_le {cap need : Nat} {answer : Answer} {R E : Prop} (h : need ≤ cap) :
    Grows sizeof cap answer need R E ↔ E := by
  rw [Grows, and_iff_right h, or_iff_left fun hlt => Nat.not_lt_of_le h hlt.1]

theorem grows_of_capacityFor {cap need c : Nat} {answer : Answer} {R E : Prop} (hlt : cap < need)
    (hc : CapacityFor cap need c) :
    Grows sizeof cap answer need R E ↔
      Refuses sizeof cap answer c ∧ R ∨ ¬ Refuses sizeof cap answer c ∧ Fits sizeof c ∧ E := by
  rw [Grows, or_iff_right fun hle => Nat.not_lt_of_le hle.1 hlt, and_iff_right hlt]
  constructor
  · rintro ⟨d, hd, h⟩
    rwa [CapacityFor.unique hlt hc hd]
  · exact fun h => ⟨c, hc, h⟩

theorem growthFails_iff {cap need c : Nat} {answer : Answer} (hlt : cap < need)
    (hc : CapacityFor cap need c) :
    GrowthFails sizeof cap answer need ↔ Refuses sizeof cap answer c := by
  rw [GrowthFails, and_iff_right hlt]
  constructor
  · rintro ⟨d, hd, h⟩
    rwa [CapacityFor.unique hlt hc hd]
  · exact fun h => ⟨c, hc, h⟩

theorem grow_of_le {v : Vec} {answer : Answer} {need : Nat} (h : need ≤ v.cap) :
    v.grow sizeof answer need = some v := if_pos h

theorem grow_of_capacityFor {v : Vec} {answer : Answer} {need c : Nat} (hlt : v.cap < need)
    (hc : CapacityFor v.cap need c) :
    v.grow sizeof answer need = some (v.reserve sizeof answer c) := by
  rw [grow, if_neg (Nat.not_le_of_lt hlt), (doubled_eq_some_iff hlt).mpr hc]
  rfl

theorem grow_eq_none {v : Vec} {answer : Answer} {need : Nat} (hlt : v.cap < need)
    (h : ∀ c, ¬ CapacityFor v.cap need c) : v.grow sizeof answer need = none := by
  rw [grow, if_neg (Nat.not_le_of_lt hlt), Option.map_eq_none_iff,
    Option.eq_none_iff_forall_ne_some]
  exact fun c hc => h c ((doubled_eq_some_iff hlt).mp hc)

theorem CapacityFor.lt {cap need c : Nat} (h : CapacityFor cap need c) : c < 2 ^ 32 := by
  obtain ⟨k, rfl, -⟩ := h
  exact sizeT_lt _

theorem CapacityFor.le {cap need c : Nat} (h : CapacityFor cap need c) : need ≤ c := by
  obtain ⟨k, -, hle, -⟩ := h
  exact hle

section Finish

variable {v : Vec} {answer : Answer} {need : Nat} {rest : Vec → Vec}
  {old new : List (Elem sizeof)} {R E : Prop}

/-- Under its condition, an operation returns a valid vector, which is as it should be. -/
theorem Finish.meets (f : Finish sizeof v need rest old new R E) (h : v.Valid sizeof)
    (hg : Grows sizeof v.cap answer need R E) :
    ∃ t, (v.grow sizeof answer need).map rest = some t ∧ t.Valid sizeof ∧
      Meets sizeof (GrowthFails sizeof v.cap answer need) old new t := by
  rcases hg with ⟨hle, hE⟩ | ⟨hlt, c, hc, ⟨hr, hR⟩ | ⟨hr, hf, hE⟩⟩
  · obtain ⟨hvalid, hnew⟩ := f.within v h hle rfl rfl hE
    refine ⟨rest v, by rw [grow_of_le hle]; rfl, hvalid, hvalid.safe, fun hfails => ?_,
      fun _ => hnew⟩
    exact absurd hfails.1 (Nat.not_lt_of_le hle)
  · obtain ⟨hvalid, hold⟩ := f.refused hlt hR
    refine ⟨rest v, ?_, hvalid, hvalid.safe, fun _ => hold, fun hfails => ?_⟩
    · rw [grow_of_capacityFor hlt hc, reserve_refused h hr]
      rfl
    · exact absurd ((growthFails_iff hlt hc).mpr hr) hfails
  · have hle := hc.le
    obtain ⟨hreserve, hcap, hsize, helems⟩ :=
      reserve_fits h (Nat.lt_of_lt_of_le hlt hle) hc.lt hr hf
    obtain ⟨hvalid, hnew⟩ := f.within _ hreserve (by rwa [hcap]) hsize helems hE
    refine ⟨_, by rw [grow_of_capacityFor hlt hc]; rfl, hvalid, hvalid.safe, fun hfails => ?_,
      fun _ => hnew⟩
    exact absurd ((growthFails_iff hlt hc).mp hfails) hr

/-- It is as it should be only then. -/
theorem Finish.grows (f : Finish sizeof v need rest old new R E) (h : v.Valid sizeof) {t : Vec}
    (hrun : (v.grow sizeof answer need).map rest = some t)
    (hmeets : Meets sizeof (GrowthFails sizeof v.cap answer need) old new t) :
    Grows sizeof v.cap answer need R E := by
  rcases Nat.lt_or_ge v.cap need with hlt | hle
  · by_cases hex : ∃ c, CapacityFor v.cap need c
    · obtain ⟨c, hc⟩ := hex
      have hle := hc.le
      have hcap := Nat.lt_of_lt_of_le hlt hle
      rw [grow_of_capacityFor hlt hc] at hrun
      rw [grows_of_capacityFor hlt hc]
      by_cases hr : Refuses sizeof v.cap answer c
      · rw [reserve_refused h hr] at hrun
        cases hrun
        have hold := hmeets.kept ((growthFails_iff hlt hc).mpr hr)
        exact .inl ⟨hr, f.refusedOnly hlt hmeets.safe hold⟩
      · cases hrun
        have hnew := hmeets.listed fun hfails => hr ((growthFails_iff hlt hc).mp hfails)
        by_cases hf : Fits sizeof c
        · obtain ⟨-, hc', hsize, -⟩ := reserve_fits h hcap hc.lt hr hf
          exact .inr ⟨hr, hf, f.only _ (by rwa [hc']) hsize hnew⟩
        · obtain ⟨hc', hroom⟩ := reserve_unbacked h hcap hr hf
          have hbacked := hmeets.safe.backed
          rw [f.cap, f.room, hc'] at hbacked
          omega
    · rw [grow_eq_none hlt fun c hc => hex ⟨c, hc⟩] at hrun
      cases hrun
  · rw [grow_of_le hle] at hrun
    cases hrun
    rw [grows_of_le hle]
    exact f.only v hle rfl (hmeets.listed fun hfails => Nat.not_lt_of_le hle hfails.1)

end Finish

/-! ## The operations -/

@[simp] theorem length_elems (v : Vec) : (v.elems sizeof).length = v.size := by
  rw [elems, List.length_map, List.length_range]

@[simp] theorem getElem_elems (v : Vec) (i : Nat) (hi : i < (v.elems sizeof).length) :
    (v.elems sizeof)[i] = v.load i := by
  simp [elems]

theorem elems_eq {v : Vec} {xs : List (Elem sizeof)} (hsize : v.size = xs.length)
    (hload : ∀ i (hi : i < xs.length), v.load i = xs[i]) : v.elems sizeof = xs := by
  refine List.ext_getElem ((length_elems v).trans hsize) fun i _ hi => ?_
  rw [getElem_elems]
  exact hload i hi

/-- Vectors with the same elements load the same. -/
theorem load_congr {u v : Vec} (h : u.elems sizeof = v.elems sizeof) {i : Nat} (hi : i < u.size) :
    (u.load i : Elem sizeof) = v.load i := by
  have hu : i < (u.elems sizeof).length := by rwa [length_elems]
  have hv : i < (v.elems sizeof).length := by rwa [← h]
  rw [← getElem_elems u i hu, ← getElem_elems v i hv]
  simp only [h]

theorem size_congr {u v : Vec} (h : u.elems sizeof = v.elems sizeof) : u.size = v.size := by
  have hlen : (u.elems sizeof).length = u.size := length_elems u
  rw [← hlen, h, length_elems]

/-- Stores behind the elements keep these, and are the elements behind them. -/
theorem elems_storeAll {u v : Vec} (h : u.Valid sizeof) (helems : u.elems sizeof = v.elems sizeof)
    {xs : List (Elem sizeof)} (hfit : u.size + xs.length ≤ u.cap) :
    ((u.storeAll xs u.size).setSize (u.size + xs.length)).elems sizeof =
      v.elems sizeof ++ xs := by
  have hsize := size_congr helems
  refine elems_eq (by simp [hsize]) fun i hi => ?_
  have hload := h.load_storeAll hfit i
  rw [setSize_load, hload]
  rcases Nat.lt_or_ge i u.size with hlt | hge
  · rw [dif_neg (by omega), List.getElem_append_left (by simpa [← hsize] using hlt), getElem_elems]
    exact load_congr helems hlt
  · rw [List.length_append, length_elems] at hi
    rw [dif_pos ⟨hge, by omega⟩, List.getElem_append_right (by simpa [← hsize] using hge)]
    simp [hsize]

theorem elems_take {u v : Vec} (helems : u.elems sizeof = v.elems sizeof) {n : Nat}
    (hn : n ≤ u.size) : (u.setSize n).elems sizeof = (v.elems sizeof).take n := by
  have hsize := size_congr helems
  refine elems_eq (by simp [← hsize, hn]) fun i hi => ?_
  rw [List.length_take] at hi
  rw [List.getElem_take, getElem_elems]
  exact load_congr helems (by omega)

/-- What `resize` to `n` makes of a list. -/
def resizedList (xs : List (Elem sizeof)) (n : Nat) (x : Elem sizeof) : List (Elem sizeof) :=
  xs.take n ++ List.replicate (n - xs.length) x

theorem resizedList_of_le {xs : List (Elem sizeof)} {n : Nat} (h : n ≤ xs.length)
    (x : Elem sizeof) : resizedList xs n x = xs.take n := by
  rw [resizedList, Nat.sub_eq_zero_of_le h, List.replicate_zero, List.append_nil]

theorem resizedList_of_ge {xs : List (Elem sizeof)} {n : Nat} (h : xs.length ≤ n)
    (x : Elem sizeof) : resizedList xs n x = xs ++ List.replicate (n - xs.length) x := by
  rw [resizedList, List.take_of_length_le h]

/-- Zeroed bytes behind the elements are zero elements behind them. -/
theorem elems_zeroed {u v : Vec} (h : u.Valid sizeof) (helems : u.elems sizeof = v.elems sizeof)
    {n : Nat} (hsize : u.size < n) (hn : n ≤ u.cap) :
    ((u.put (u.size * sizeof) ((n - u.size) * sizeof) fun _ => 0).setSize n).elems sizeof =
      resizedList (v.elems sizeof) n (fun _ => 0) := by
  have hlen := size_congr helems
  rw [resizedList_of_ge (by rw [length_elems]; omega)]
  refine elems_eq (by simp [← hlen]; omega) fun i hi => ?_
  funext j
  have hj := j.isLt
  rw [setSize_load, load]
  rcases Nat.lt_or_ge i u.size with hlt | hge
  · have hle : (i + 1) * sizeof ≤ u.size * sizeof := Nat.mul_le_mul_right sizeof hlt
    rw [Nat.succ_mul] at hle
    rw [byte_put_outside _ (by omega), List.getElem_append_left (by simpa [← hlen] using hlt),
      getElem_elems, ← load_congr helems hlt]
    rfl
  · rw [List.length_append, List.length_replicate, length_elems] at hi
    have hfrom : u.size * sizeof ≤ i * sizeof := Nat.mul_le_mul_right sizeof hge
    have hto : (i + 1) * sizeof ≤ (u.size + (n - u.size)) * sizeof :=
      Nat.mul_le_mul_right sizeof (by omega)
    rw [Nat.succ_mul, Nat.add_mul] at hto
    rw [byte_put (h.isSome (by omega)), if_pos (by omega),
      List.getElem_append_right (by simpa [← hlen] using hge)]
    simp

theorem resize_finish {v : Vec} (h : v.Valid sizeof) (n : Nat) :
    Finish sizeof v n (resizeGrown sizeof n) (v.elems sizeof)
      (resizedList (v.elems sizeof) n fun _ => 0)
      (sizeT ((n - v.size) * sizeof) ≤ (v.cap - v.size) * sizeof) True where
  cap u := by
    rw [resizeGrown, setSize_cap]
    split <;> rfl
  room u := by
    rw [resizeGrown, setSize_room]
    split
    · exact put_room u _ _ _
    · rfl
  within u hu hn hsize helems _ := by
    rcases Nat.lt_or_ge u.size n with hlt | hge
    · have hmul : (n - u.size) * sizeof ≤ u.cap * sizeof :=
        Nat.mul_le_mul_right sizeof (by omega)
      have hfits : u.cap * sizeof + headerSize < 2 ^ 32 := hu.fits
      have hsum : u.size * sizeof + (n - u.size) * sizeof ≤ u.cap * sizeof := by
        rw [← Nat.add_mul]
        exact Nat.mul_le_mul_right sizeof (by omega)
      simp only [resizeGrown, if_pos hlt, put_cap, if_pos hn,
        sizeT_of_lt (show (n - u.size) * sizeof < 2 ^ 32 by omega)]
      exact ⟨(hu.put _ (.inr hsum)).setSize hn, elems_zeroed hu helems hlt hn⟩
    · simp only [resizeGrown, if_neg (Nat.not_lt_of_le hge), if_pos hn]
      refine ⟨hu.setSize hn, ?_⟩
      rw [resizedList_of_le (by rw [length_elems, ← hsize]; exact hge), elems_take helems hge]
  only _ _ _ _ := trivial
  refused hlt hR := by
    have hsize := h.size_le
    have hspare := Nat.sub_mul v.cap v.size sizeof
    have hmul : v.size * sizeof ≤ v.cap * sizeof := Nat.mul_le_mul_right sizeof hsize
    simp only [resizeGrown, if_pos (show v.size < n by omega), put_cap, put_size,
      if_neg (Nat.not_le_of_lt hlt)]
    refine ⟨(h.put _ (.inr (by omega))).setSize hsize, elems_congr rfl fun a ha => ?_⟩
    rw [setSize_byte, byte_put_outside _ (.inl ha)]
  refusedOnly hlt hsafe _ := by
    have hsize := h.size_le
    have hspare := Nat.sub_mul v.cap v.size sizeof
    have hmul : v.size * sizeof ≤ v.cap * sizeof := Nat.mul_le_mul_right sizeof hsize
    simp only [resizeGrown, if_pos (show v.size < n by omega)] at hsafe
    have hinside : sizeT ((n - v.size) * sizeof) = 0 ∨
        v.size * sizeof + sizeT ((n - v.size) * sizeof) ≤ v.room :=
      hsafe.inside _ (List.mem_append_right _ List.mem_cons_self)
    rw [h.room_eq] at hinside
    omega

theorem resizeWith_finish {v : Vec} (h : v.Valid sizeof) (n : Nat) (x : Elem sizeof) :
    Finish sizeof v n (resizeWithGrown n x) (v.elems sizeof) (resizedList (v.elems sizeof) n x)
      True True where
  cap u := by rw [resizeWithGrown, setSize_cap, fill_cap]
  room u := by rw [resizeWithGrown, setSize_room, fill_room]
  within u hu hn hsize helems _ := by
    rw [resizeWithGrown, fill_eq n x _ _ u hu.cap_lt, storeAll_cap, if_pos hn]
    rcases Nat.lt_or_ge u.size n with hlt | hge
    · have hcount : min (n - u.size) (min n u.cap - u.size) = n - u.size := by omega
      have hfit : u.size + (List.replicate (n - u.size) x).length ≤ u.cap := by
        rw [List.length_replicate]
        omega
      have hlist := elems_storeAll hu helems hfit
      rw [List.length_replicate, show u.size + (n - u.size) = n by omega] at hlist
      rw [hcount, hlist, resizedList_of_ge (by rw [length_elems, ← hsize]; omega), length_elems,
        hsize]
      rw [hsize] at hfit
      exact ⟨(hu.storeAll hfit).setSize (by rwa [storeAll_cap]), rfl⟩
    · have hcount : min (n - u.size) (min n u.cap - u.size) = 0 := by omega
      rw [hcount, resizedList_of_le (by rw [length_elems, ← hsize]; exact hge)]
      exact ⟨hu.setSize hn, elems_take helems hge⟩
  only _ _ _ _ := trivial
  refused hlt _ := by
    have hsize := h.size_le
    have hcount : min (n - v.size) (min n v.cap - v.size) = v.cap - v.size := by omega
    have hfit : v.size + (List.replicate (v.cap - v.size) x).length ≤ v.cap := by
      rw [List.length_replicate]
      omega
    rw [resizeWithGrown, fill_eq n x _ _ v h.cap_lt, storeAll_cap,
      if_neg (Nat.not_le_of_lt hlt), hcount, storeAll_size]
    refine ⟨(h.storeAll hfit).setSize (by rwa [storeAll_cap]), ?_⟩
    refine elems_eq (length_elems v).symm fun i hi => ?_
    rw [length_elems] at hi
    rw [setSize_load, h.load_storeAll hfit, dif_neg (by omega), getElem_elems]
  refusedOnly _ _ _ := trivial

theorem pushBack_finish {v : Vec} (h : v.Valid sizeof) (x : Elem sizeof) :
    Finish sizeof v (sizeT (v.size + 1)) (pushBackGrown x) (v.elems sizeof)
      (v.elems sizeof ++ [x]) True (v.size + 1 < 2 ^ 32) where
  cap u := by
    rw [pushBackGrown]
    split <;> rfl
  room u := by
    rw [pushBackGrown]
    split
    · exact store_room u _ x
    · rfl
  within u hu hn hsize helems hE := by
    rw [← hsize] at hn hE
    rw [sizeT_of_lt hE] at hn
    rw [pushBackGrown, if_pos (Nat.lt_of_succ_le hn), sizeT_of_lt hE]
    have hfit : u.size + [x].length ≤ u.cap := hn
    exact ⟨(hu.storeAll hfit).setSize (by rwa [storeAll_cap]), elems_storeAll hu helems hfit⟩
  only u hn hsize hlist := by
    have hlen := congrArg List.length hlist
    rw [length_elems, List.length_append, length_elems, List.length_singleton] at hlen
    rw [← hlen, pushBackGrown]
    rw [pushBackGrown] at hlen
    split at hlen
    · rename_i hlt
      rw [if_pos hlt]
      exact sizeT_lt _
    · omega
  refused hlt _ := by
    rw [pushBackGrown, if_neg]
    · exact ⟨h, rfl⟩
    · exact fun hsize => Nat.not_lt_of_le (Nat.le_trans (sizeT_le _) hsize) hlt
  refusedOnly _ _ _ := trivial

/-- `insert` at the end. -/
theorem insert_finish {v : Vec} (h : v.Valid sizeof) (xs old : List (Elem sizeof)) :
    Finish sizeof v (sizeT (v.size + sizeT xs.length)) (insertGrown v.size xs) old
      (v.elems sizeof ++ xs) (v.elems sizeof = old) (v.size + xs.length < 2 ^ 32) where
  cap u := by
    simp only [insertGrown]
    split
    · rfl
    · split
      · simp
      · simp
  room u := by
    simp only [insertGrown]
    split
    · rfl
    · split
      · exact (storeAll_room xs _ _).trans (put_room _ _ _ _)
      · exact storeAll_room xs _ _
  within u hu hn hsize helems hE := by
    rw [sizeT_of_lt (show xs.length < 2 ^ 32 by omega), sizeT_of_lt hE] at hn
    rw [← hsize] at hn hE ⊢
    simp only [insertGrown, sizeT_of_lt (show xs.length < 2 ^ 32 by omega), sizeT_of_lt hE,
      if_neg (Nat.not_lt_of_le hn), if_neg (Nat.lt_irrefl u.size)]
    exact ⟨(hu.storeAll hn).setSize (by rwa [storeAll_cap]), elems_storeAll hu helems hn⟩
  only u hn hsize hlist := by
    have hlen := congrArg List.length hlist
    rw [length_elems, List.length_append, length_elems] at hlen
    rw [← hsize] at hn
    rw [← hlen]
    simp only [insertGrown, if_neg (Nat.not_lt_of_le hn)]
    exact sizeT_lt _
  refused hlt hR := by
    simp only [insertGrown, if_pos hlt]
    exact ⟨h, hR⟩
  refusedOnly hlt _ hold := by
    simp only [insertGrown, if_pos hlt] at hold
    exact hold

end Vec

/-! ## What a vector is to do -/

open Vec

/-- The operations of one vector. -/
inductive Op (sizeof : Nat)
  | reserve (n : UInt32)
  | resize (n : UInt32)
  | resizeWith (n : UInt32) (x : Elem sizeof)
  | pushBack (x : Elem sizeof)
  | assign (xs : List (Elem sizeof))
  /-- `insert` at `end()`. -/
  | insertEnd (xs : List (Elem sizeof))
  | clear

namespace Op

variable {sizeof : Nat}

def run (answer : Answer) (v : Vec) : Op sizeof → Option Vec
  | .reserve n => some (v.reserve sizeof answer n.toNat)
  | .resize n => v.resize sizeof answer n.toNat
  | .resizeWith n x => v.resizeWith answer n.toNat x
  | .pushBack x => v.pushBack answer x
  | .assign xs => v.assign answer xs
  | .insertEnd xs => v.insert answer v.size xs
  | .clear => some v.clear

/-- What the operation does to a list. -/
def list (l : List (Elem sizeof)) : Op sizeof → List (Elem sizeof)
  | .reserve _ => l
  | .resize n => resizedList l n.toNat fun _ => 0
  | .resizeWith n x => resizedList l n.toNat x
  | .pushBack x => l ++ [x]
  | .assign xs => xs
  | .insertEnd xs => l ++ xs
  | .clear => []

/-- The operation needs more capacity, and does not get it. -/
def Fails (answer : Answer) (v : Vec) : Op sizeof → Prop
  | .reserve n => v.cap < n.toNat ∧ Refuses sizeof v.cap answer n.toNat
  | .resize n | .resizeWith n _ => GrowthFails sizeof v.cap answer n.toNat
  | .pushBack _ => GrowthFails sizeof v.cap answer (sizeT (v.size + 1))
  | .assign xs => GrowthFails sizeof v.cap answer (sizeT xs.length)
  | .insertEnd xs => GrowthFails sizeof v.cap answer (sizeT (v.size + xs.length))
  | .clear => False

/-- Where an operation is as it should be.  If it cannot grow, `resize(n)` zeroes in the old
capacity only, and `assign` had nothing to lose. -/
def Holds (answer : Answer) (v : Vec) : Op sizeof → Prop
  | .reserve n => v.cap < n.toNat → Refuses sizeof v.cap answer n.toNat ∨ Fits sizeof n.toNat
  | .resize n =>
      Grows sizeof v.cap answer n.toNat
        (sizeT ((n.toNat - v.size) * sizeof) ≤ (v.cap - v.size) * sizeof) True
  | .resizeWith n _ => Grows sizeof v.cap answer n.toNat True True
  | .pushBack _ => Grows sizeof v.cap answer (sizeT (v.size + 1)) True (v.size + 1 < 2 ^ 32)
  | .assign xs => Grows sizeof v.cap answer (sizeT xs.length) (v.size = 0) (xs.length < 2 ^ 32)
  | .insertEnd xs =>
      Grows sizeof v.cap answer (sizeT (v.size + xs.length)) True (v.size + xs.length < 2 ^ 32)
  | .clear => True

theorem sizeT_add_sizeT (m n : Nat) : sizeT (m + sizeT n) = sizeT (m + n) := Nat.add_mod_mod m n _

/-- `insert` at the end, in the words of `Holds`. -/
theorem insertEnd_finish {v : Vec} (h : v.Valid sizeof) (xs : List (Elem sizeof)) :
    Finish sizeof v (sizeT (v.size + xs.length)) (insertGrown v.size xs) (v.elems sizeof)
      (v.elems sizeof ++ xs) True (v.size + xs.length < 2 ^ 32) := by
  have hfinish := insert_finish h xs (v.elems sizeof)
  rw [sizeT_add_sizeT, eq_self] at hfinish
  exact hfinish

theorem assign_finish {v : Vec} (h : v.Valid sizeof) (xs : List (Elem sizeof)) :
    Finish sizeof v.clear (sizeT xs.length) (insertGrown 0 xs) (v.elems sizeof) xs
      (v.size = 0) (xs.length < 2 ^ 32) := by
  have hclear : v.clear.elems sizeof = [] := elems_of_size_eq_zero rfl
  have hold : (v.clear.elems sizeof = v.elems sizeof) = (v.size = 0) := by
    rw [hclear, eq_comm (a := []), ← List.length_eq_zero_iff, length_elems]
  have hfinish := insert_finish (h.setSize (Nat.zero_le _)) xs (v.elems sizeof)
  rw [← Vec.clear, hclear, List.nil_append, sizeT_add_sizeT, ← hclear, hold] at hfinish
  rw [show v.clear.size = 0 from rfl, Nat.zero_add] at hfinish
  exact hfinish

theorem run_assign (answer : Answer) (v : Vec) (xs : List (Elem sizeof)) :
    v.assign answer xs = (v.clear.grow sizeof answer (sizeT xs.length)).map (insertGrown 0 xs) := by
  rw [Vec.assign, Vec.insert, sizeT_add_sizeT, show v.clear.size = 0 from rfl, Nat.zero_add]

theorem run_insertEnd (answer : Answer) (v : Vec) (xs : List (Elem sizeof)) :
    v.insert answer v.size xs =
      (v.grow sizeof answer (sizeT (v.size + xs.length))).map (insertGrown v.size xs) := by
  rw [Vec.insert, sizeT_add_sizeT]

variable {answer : Answer} {v : Vec}

/-- Where it holds, the operation returns a valid vector, and is as it should be. -/
theorem meets (h : v.Valid sizeof) (op : Op sizeof) (hop : op.Holds answer v) :
    ∃ t, op.run answer v = some t ∧ t.Valid sizeof ∧
      Meets sizeof (op.Fails answer v) (v.elems sizeof) (op.list (v.elems sizeof)) t := by
  cases op with
  | reserve n =>
      refine ⟨_, rfl, ?_⟩
      rcases Nat.lt_or_ge v.cap n.toNat with hlt | hge
      · by_cases hr : Refuses sizeof v.cap answer n.toNat
        · rw [reserve_refused h hr]
          exact ⟨h, h.safe, fun _ => rfl, fun _ => rfl⟩
        · have hf := (hop hlt).resolve_left hr
          obtain ⟨hvalid, -, -, helems⟩ := reserve_fits h hlt n.toNat_lt hr hf
          exact ⟨hvalid, hvalid.safe, fun _ => helems, fun _ => helems⟩
      · rw [Vec.reserve, if_pos hge]
        exact ⟨h, h.safe, fun _ => rfl, fun _ => rfl⟩
  | resize n => exact (resize_finish h n.toNat).meets h hop
  | resizeWith n x => exact (resizeWith_finish h n.toNat x).meets h hop
  | pushBack x => exact (pushBack_finish h x).meets h hop
  | assign xs =>
      rw [run, run_assign]
      exact (assign_finish h xs).meets (h.setSize (Nat.zero_le _)) hop
  | insertEnd xs =>
      rw [run, run_insertEnd]
      exact (insertEnd_finish h xs).meets h hop
  | clear =>
      have hvalid := h.setSize (Nat.zero_le v.cap)
      exact ⟨_, rfl, hvalid, hvalid.safe, False.elim, fun _ => elems_of_size_eq_zero rfl⟩

/-- Where an operation is as it should be, it holds. -/
theorem holds (h : v.Valid sizeof) {op : Op sizeof} {t : Vec} (hrun : op.run answer v = some t)
    (hmeets : Meets sizeof (op.Fails answer v) (v.elems sizeof) (op.list (v.elems sizeof)) t) :
    op.Holds answer v := by
  cases op with
  | reserve n =>
      intro hlt
      by_cases hr : Refuses sizeof v.cap answer n.toNat
      · exact .inl hr
      · refine .inr (Classical.by_contradiction fun hf => ?_)
        obtain ⟨hcap, hroom⟩ := reserve_unbacked h hlt hr hf
        have hbacked := hmeets.safe.backed
        cases hrun
        rw [hcap] at hbacked
        omega
  | resize n => exact (resize_finish h n.toNat).grows h hrun hmeets
  | resizeWith n x => exact (resizeWith_finish h n.toNat x).grows h hrun hmeets
  | pushBack x => exact (pushBack_finish h x).grows h hrun hmeets
  | assign xs =>
      rw [run, run_assign] at hrun
      exact (assign_finish h xs).grows (h.setSize (Nat.zero_le _)) hrun hmeets
  | insertEnd xs =>
      rw [run, run_insertEnd] at hrun
      exact (insertEnd_finish h xs).grows h hrun hmeets
  | clear => trivial

end Op

/-! ## Runs -/

/-- The vector variables of a program. -/
abbrev Vectors := Nat → Vec

/-- A step: an operation of a vector, or one that makes a vector of another one. -/
inductive Event (sizeof : Nat)
  | op (k : Nat) (op : Op sizeof) (answer : Answer)
  /-- `vector()`.  The constructors with a size go on with a `resize`. -/
  | construct (k : Nat)
  | copyConstruct (k j : Nat) (answer : Answer)
  | copyAssign (k j : Nat) (answer : Answer)
  | moveConstruct (k j : Nat)
  | moveAssign (k j : Nat)

namespace Vec

/-- A vector without a block, with the log of this one. -/
def emptied (v : Vec) : Vec := { v with data := none, size := 0, cap := 0 }

/-- The block of `o`, with the log of this vector. -/
def movedFrom (v o : Vec) : Vec := { v with data := o.data, size := o.size, cap := o.cap }

variable {sizeof : Nat}

theorem fits_zero : Fits sizeof 0 := by
  rw [Fits, Nat.zero_mul]
  decide

theorem Valid.emptied {v : Vec} (h : v.Valid sizeof) : v.emptied.Valid sizeof :=
  ⟨Nat.le_refl 0, Nat.two_pow_pos 32, fits_zero, rfl, h.inside⟩

theorem Valid.movedFrom {o v : Vec} (ho : o.Valid sizeof) (h : v.Valid sizeof) :
    (v.movedFrom o).Valid sizeof :=
  ⟨ho.size_le, ho.cap_lt, ho.fits, ho.data, h.inside⟩

@[simp] theorem emptied_elems (v : Vec) : v.emptied.elems sizeof = [] := elems_of_size_eq_zero rfl

@[simp] theorem movedFrom_elems (v o : Vec) : (v.movedFrom o).elems sizeof = o.elems sizeof := rfl

end Vec

namespace Vectors

open Function (update)

variable {sizeof : Nat}

/-- No vector has anything. -/
def start : Vectors := fun _ => {}

def lists (sizeof : Nat) (s : Vectors) : Nat → List (Elem sizeof) := fun k => (s k).elems sizeof

def step (s : Vectors) : Event sizeof → Option Vectors
  | .op k op answer => (op.run answer (s k)).map (update s k)
  | .construct k => some (update s k (s k).emptied)
  | .copyConstruct k j answer =>
      ((s k).emptied.assign answer ((s j).elems sizeof)).map (update s k)
  | .copyAssign k j answer =>
      if k ≠ j then ((s k).assign answer ((s j).elems sizeof)).map (update s k) else some s
  | .moveConstruct k j => some (update (update s j (s j).emptied) k ((s k).movedFrom (s j)))
  | .moveAssign k j =>
      if k ≠ j then some (update (update s j (s j).emptied) k ((s k).movedFrom (s j))) else some s

/-- The step needs more capacity, and does not get it. -/
def Fails (s : Vectors) : Event sizeof → Prop
  | .op k op answer => op.Fails answer (s k)
  | .copyConstruct k j answer => (Op.assign ((s j).elems sizeof)).Fails answer (s k).emptied
  | .copyAssign k j answer => k ≠ j ∧ (Op.assign ((s j).elems sizeof)).Fails answer (s k)
  | _ => False

/-- What the step does to lists. -/
def after (l : Nat → List (Elem sizeof)) : Event sizeof → Nat → List (Elem sizeof)
  | .op k op _ => update l k (op.list (l k))
  | .construct k => update l k []
  | .copyConstruct k j _ => update l k (l j)
  | .copyAssign k j _ => update l k (l j)
  | .moveConstruct k j => update (update l j []) k (l j)
  | .moveAssign k j => if k ≠ j then update (update l j []) k (l j) else l

/-- The lists where it fails: as before, and a new vector has no elements. -/
def kept (l : Nat → List (Elem sizeof)) : Event sizeof → Nat → List (Elem sizeof)
  | .copyConstruct k _ _ => update l k []
  | _ => l

/-- The step returns, every vector is safe, and has the elements that it is to have. -/
def Meets (s : Vectors) (e : Event sizeof) : Prop :=
  ∃ t, step s e = some t ∧ (∀ k, (t k).Safe sizeof) ∧
    (s.Fails e → t.lists sizeof = kept (s.lists sizeof) e) ∧
    (¬ s.Fails e → t.lists sizeof = after (s.lists sizeof) e)

/-- The condition of `Op.Holds`, on the vector that the step works on. -/
def Holds (s : Vectors) : Event sizeof → Prop
  | .op k op answer => op.Holds answer (s k)
  | .copyConstruct k j answer => (Op.assign ((s j).elems sizeof)).Holds answer (s k).emptied
  | .copyAssign k j answer => k ≠ j → (Op.assign ((s j).elems sizeof)).Holds answer (s k)
  | _ => True

theorem lists_update (s : Vectors) (k : Nat) (v : Vec) :
    lists sizeof (update s k v) = update (s.lists sizeof) k (v.elems sizeof) := by
  funext i
  simp only [lists, Function.update_apply]
  split
  · rfl
  · rfl

theorem valid_update {s : Vectors} (hs : ∀ i, (s i).Valid sizeof) {v : Vec} (h : v.Valid sizeof)
    (k i : Nat) : (update s k v i).Valid sizeof := by
  rw [Function.update_apply]
  split
  · exact h
  · exact hs i

section

variable {s : Vectors} {k : Nat} {v : Vec} {op : Op sizeof} {answer : Answer}

/-- An operation on `v` whose result is put in place of a vector. -/
theorem applied_meets (hs : ∀ i, (s i).Valid sizeof) (h : v.Valid sizeof)
    (hop : op.Holds answer v) :
    ∃ t : Vectors, (op.run answer v).map (update s k) = some t ∧ (∀ i, (t i).Valid sizeof) ∧
      (op.Fails answer v → t.lists sizeof = update (s.lists sizeof) k (v.elems sizeof)) ∧
      (¬ op.Fails answer v →
        t.lists sizeof = update (s.lists sizeof) k (op.list (v.elems sizeof))) := by
  obtain ⟨u, hrun, hvalid, hmeets⟩ := op.meets h hop
  refine ⟨update s k u, by rw [hrun]; rfl, valid_update hs hvalid k, fun hfails => ?_,
    fun hfails => ?_⟩
  · rw [lists_update, hmeets.kept hfails]
  · rw [lists_update, hmeets.listed hfails]

theorem applied_holds (h : v.Valid sizeof) {t : Vectors}
    (hrun : (op.run answer v).map (update s k) = some t) (hsafe : ∀ i, (t i).Safe sizeof)
    (hkept : op.Fails answer v → t.lists sizeof = update (s.lists sizeof) k (v.elems sizeof))
    (hlisted : ¬ op.Fails answer v →
      t.lists sizeof = update (s.lists sizeof) k (op.list (v.elems sizeof))) :
    op.Holds answer v := by
  obtain ⟨u, hu, rfl⟩ := Option.map_eq_some_iff.mp hrun
  rw [lists_update] at hkept hlisted
  have hsafe := hsafe k
  rw [Function.update_self] at hsafe
  exact op.holds h hu ⟨hsafe, fun hfails => Function.update_injective _ k (hkept hfails),
    fun hfails => Function.update_injective _ k (hlisted hfails)⟩

end

/-- Where it holds, a step keeps the vectors valid, and is as it should be. -/
theorem step_meets {s : Vectors} (hs : ∀ i, (s i).Valid sizeof) {e : Event sizeof}
    (he : s.Holds e) :
    ∃ t, step s e = some t ∧ (∀ k, (t k).Valid sizeof) ∧
      (s.Fails e → t.lists sizeof = kept (s.lists sizeof) e) ∧
      (¬ s.Fails e → t.lists sizeof = after (s.lists sizeof) e) := by
  have hmoved (k j i : Nat) :
      (update (update s j (s j).emptied) k ((s k).movedFrom (s j)) i).Valid sizeof :=
    valid_update (valid_update hs (hs j).emptied j) ((hs j).movedFrom (hs k)) k i
  cases e with
  | op k op answer =>
      obtain ⟨t, hrun, hvalid, hkept, hafter⟩ := applied_meets (k := k) hs (hs k) he
      exact ⟨t, hrun, hvalid, fun hfails => (hkept hfails).trans (Function.update_eq_self _ _),
        hafter⟩
  | construct k =>
      refine ⟨_, rfl, valid_update hs (hs k).emptied k, False.elim, fun _ => ?_⟩
      rw [lists_update, emptied_elems]
      rfl
  | copyConstruct k j answer =>
      have hassign : (Op.assign ((s j).elems sizeof)).Holds answer (s k).emptied := he
      obtain ⟨t, hrun, hvalid, hkept, hafter⟩ := applied_meets (k := k) hs (hs k).emptied hassign
      rw [emptied_elems] at hkept
      exact ⟨t, hrun, hvalid, hkept, hafter⟩
  | copyAssign k j answer =>
      by_cases hkj : k = j
      · subst hkj
        refine ⟨s, if_neg (not_not_intro rfl), hs, fun hfails => absurd rfl hfails.1, fun _ => ?_⟩
        exact (Function.update_eq_self _ _).symm
      · obtain ⟨t, hrun, hvalid, hkept, hafter⟩ := applied_meets (k := k) hs (hs k) (he hkj)
        refine ⟨t, (if_pos hkj).trans hrun, hvalid, fun hfails => ?_, fun hfails => ?_⟩
        · exact (hkept hfails.2).trans (Function.update_eq_self _ _)
        · exact hafter fun h => hfails ⟨hkj, h⟩
  | moveConstruct k j =>
      refine ⟨_, rfl, hmoved k j, False.elim, fun _ => ?_⟩
      rw [lists_update, lists_update, emptied_elems, movedFrom_elems]
      rfl
  | moveAssign k j =>
      by_cases hkj : k = j
      · exact ⟨s, if_neg (not_not_intro hkj), hs, False.elim,
          fun _ => (if_neg (not_not_intro hkj)).symm⟩
      · refine ⟨_, if_pos hkj, hmoved k j, False.elim, fun _ => ?_⟩
        rw [lists_update, lists_update, emptied_elems, movedFrom_elems, after, if_pos hkj]
        rfl

/-- A step that is as it should be holds. -/
theorem holds_of_meets {s : Vectors} (hs : ∀ i, (s i).Valid sizeof) {e : Event sizeof}
    (h : s.Meets e) : s.Holds e := by
  obtain ⟨t, hstep, hsafe, hkept, hafter⟩ := h
  cases e with
  | op k op answer =>
      exact applied_holds (hs k) hstep hsafe
        (fun hfails => (hkept hfails).trans (Function.update_eq_self _ _).symm) hafter
  | copyConstruct k j answer =>
      have hrun : ((Op.assign ((s j).elems sizeof)).run answer (s k).emptied).map (update s k) =
          some t := hstep
      refine applied_holds (hs k).emptied hrun hsafe (fun hfails => ?_) hafter
      rw [emptied_elems]
      exact hkept hfails
  | copyAssign k j answer =>
      intro hkj
      refine applied_holds (hs k) ((if_pos hkj).symm.trans hstep) hsafe (fun hfails => ?_)
        fun hfails => hafter fun h => hfails h.2
      exact (hkept ⟨hkj, hfails⟩).trans (Function.update_eq_self _ _).symm
  | construct k => trivial
  | moveConstruct k j => trivial
  | moveAssign k j => trivial

theorem start_valid (k : Nat) : (start k).Valid sizeof :=
  ⟨Nat.le_refl 0, Nat.two_pow_pos 32, fits_zero, rfl, fun _ hw => absurd hw List.not_mem_nil⟩

theorem step_valid {s t : Vectors} {e : Event sizeof} (hs : ∀ i, (s i).Valid sizeof)
    (he : s.Holds e) (hstep : step s e = some t) : ∀ i, (t i).Valid sizeof := by
  obtain ⟨u, hu, hvalid, -⟩ := step_meets hs he
  rw [hstep] at hu
  cases hu
  exact hvalid

/-- The steps of a run are as they should be exactly if they all hold. -/
theorem meets_iff_holds (es : List (Event sizeof)) :
    Throughout step Meets start es ↔ Throughout step Holds start es := by
  constructor
  · exact throughout_mono (fun hs h => step_valid hs (holds_of_meets hs h))
      (fun hs h => holds_of_meets hs h) start_valid
  · refine throughout_mono (fun hs h => step_valid hs h) (fun hs h => ?_) start_valid
    obtain ⟨t, hstep, hvalid, hlists⟩ := step_meets hs h
    exact ⟨t, hstep, fun k => (hvalid k).safe, hlists⟩

/-- `resize(20)` of an empty vector, without memory, writes 20 bytes through the null pointer. -/
theorem not_meets_resize :
    ¬ Throughout step Meets start [(.op 0 (.resize 20) none : Event 1)] := by
  rintro ⟨⟨t, hstep, hsafe, -⟩, -⟩
  cases hstep
  have hinside := (hsafe 0).inside ⟨0, 0, 20⟩ (List.mem_singleton.mpr rfl)
  exact absurd hinside (by decide)

end Vectors

end MFoES.Libgfx.Freestanding
