import NetEngine.Mina.Strings

/-!
# What a buffer holds

A buffer is written to behind the bytes in front of its position and read from
the bytes between position and limit.  Each put appends the bytes of its value
to the former, wherever the array is by then; each get takes the bytes of its
value from the latter, and succeeds if they are there.  A put succeeds if there is
room or the buffer may expand.  From the two sides follows what `Flip` between
puts and gets gives back.
-/

namespace NetEngine
namespace Mina

open Net

/-- The bytes from position to limit. -/
def View.unread (v : View) : List UInt8 :=
  v.shown.drop v.buf.position.toNat

theorem View.unread_eq {v : View} (hv : v.Valid) :
    v.unread = v.hb.cells.read (v.buf.position + v.buf.offset).toNat
      v.buf.remaining.toNat := by
  obtain ⟨h₁, h₂, h₃, h₄, h₅, h₆⟩ := hv.numbers
  have hoffset := hv.offset_ge
  have hrem : v.buf.remaining = v.buf.limit - v.buf.position := rfl
  have hstart : (v.buf.position + v.buf.offset).toNat =
      v.buf.offset.toNat + v.buf.position.toNat := by
    omega
  have hcount : v.buf.remaining.toNat =
      v.buf.limit.toNat - v.buf.position.toNat := by
    omega
  rw [unread, shown, Memory.drop_read, hstart, hcount]

namespace Op

section Reading

/-- The bytes that are left to be read, in a buffer that is in order. -/
structure Reads (o : ByteOrder) (bs : List UInt8) (v : View) : Prop where
  valid : v.Valid
  order : v.buf.order = o
  unread : v.unread = bs

variable {o : ByteOrder} {bs rest : List UInt8} {b : UInt8} {v : View}

theorem Reads.remaining (h : Reads o bs v) : v.buf.remaining = bs.length := by
  obtain ⟨h₁, h₂, h₃, h₄, h₅, h₆⟩ := h.valid.numbers
  have hrem : v.buf.remaining = v.buf.limit - v.buf.position := rfl
  rw [← h.unread, View.unread_eq h.valid, Memory.read_length]
  omega

/-- The bytes that are there first. -/
theorem Reads.cells (h : Reads o (bs ++ rest) v) :
    v.hb.cells.read (v.buf.position + v.buf.offset).toNat bs.length = bs := by
  have hrem := h.remaining
  have hunread := h.unread
  rw [List.length_append] at hrem
  rw [View.unread_eq h.valid] at hunread
  rw [← Memory.take_read _ _ (show bs.length ≤ v.buf.remaining.toNat by
    omega), hunread, List.take_left]

/-- The view with the position moved on. -/
def skipped (v : View) (n : Int) : View :=
  v.withNumbers { v.buf.toBuffer with position := v.buf.position + n }

/-- Behind the first bytes there are the others. -/
theorem Reads.skipped (h : Reads o (bs ++ rest) v) :
    Reads o rest (skipped v bs.length) := by
  obtain ⟨h₁, h₂, h₃, h₄, h₅, h₆⟩ := h.valid.numbers
  have hrem := h.remaining
  have hrem' : v.buf.remaining = v.buf.limit - v.buf.position := rfl
  rw [List.length_append] at hrem
  refine ⟨h.valid.numbered ⟨h₁, ?_, ?_, ?_, h₅, h₆⟩ rfl, h.order, ?_⟩
  · dsimp only
    omega
  · dsimp only
    omega
  · dsimp only
    omega
  · have hposition : (v.buf.position + bs.length).toNat =
        v.buf.position.toNat + bs.length := by
      omega
    have hunread := h.unread
    unfold View.unread at hunread
    show v.shown.drop (v.buf.position + bs.length).toNat = rest
    rw [hposition, ← List.drop_drop, hunread, List.drop_left]

theorem getInternals_eq
    {i : Int} (w : Nat) (hge : 0 ≤ i) (hle : i + w ≤ v.hb.length) :
    getInternals i w v = .ok (v.hb.cells.read i.toNat w) v := by
  induction w generalizing i with
  | zero =>
      rfl
  | succ w ih =>
      have hfirst : getInternal i v = .ok (v.hb.cells i.toNat) v := by
        rw [getInternal, Fallible.get_bind, if_pos ⟨hge, by omega⟩]
        rfl
      have hnext : (i + 1).toNat = i.toNat + 1 := by
        omega
      rw [getInternals, Fallible.bind_ok hfirst,
        Fallible.bind_ok (ih (by omega) (by omega)), hnext,
        Memory.read_succ]
      rfl

theorem nextGetIndex_ok {n : Int} (hroom : n ≤ v.buf.remaining) :
    nextGetIndex n v = .ok v.buf.position (Op.skipped v n) := by
  have hrem : v.buf.remaining = v.buf.limit - v.buf.position := rfl
  apply base_ok
  rw [Buffer.nextIndex, if_neg (by omega)]

/-- Any view of the same array reads the bytes that are there first. -/
theorem Reads.getInternals
    {w : View} (h : Reads o (bs ++ rest) v) (hhb : w.hb = v.hb) :
    getInternals (v.buf.position + v.buf.offset) bs.length w = .ok bs w := by
  obtain ⟨h₁, h₂, h₃, h₄, h₅, h₆⟩ := h.valid.numbers
  have hwindow := h.valid.window
  have hoffset := h.valid.offset_ge
  have hrem := h.remaining
  have hrem' : v.buf.remaining = v.buf.limit - v.buf.position := rfl
  rw [List.length_append] at hrem
  rw [getInternals_eq bs.length (by omega) (by rw [hhb]; omega), hhb,
    h.cells]

/-- The position, as an index of the array. -/
theorem Reads.offset
    {w : View} (h : Reads o bs v) (hoffset : w.buf.offset = v.buf.offset) :
    offset v.buf.position w = .ok (v.buf.position + v.buf.offset) w := by
  obtain ⟨h₁, h₂, h₃, h₄, h₅, h₆⟩ := h.valid.numbers
  have hwindow := h.valid.window
  have hlength := h.valid.length_lt
  have hge := h.valid.offset_ge
  have hwrap : int32 (v.buf.position + w.buf.offset) =
      v.buf.position + v.buf.offset := by
    rw [hoffset]
    exact int32_of_bounds (by omega) (by omega)
  rw [Op.offset, Fallible.get_bind, hwrap]
  rfl

theorem Reads.getInternal
    {w : View} (h : Reads o (b :: rest) v) (hhb : w.hb = v.hb) :
    getInternal (v.buf.position + v.buf.offset) w = .ok b w := by
  have h' : Reads o ([b] ++ rest) v := h
  obtain ⟨h₁, h₂, h₃, h₄, h₅, h₆⟩ := h.valid.numbers
  have hwindow := h.valid.window
  have hoffset := h.valid.offset_ge
  have hrem := h.remaining
  have hrem' : v.buf.remaining = v.buf.limit - v.buf.position := rfl
  rw [List.length_cons] at hrem
  have hcell := h'.cells
  rw [List.length_singleton, Memory.read_succ] at hcell
  rw [Op.getInternal, Fallible.get_bind, hhb,
    if_pos ⟨by omega, by omega⟩, (List.cons.inj hcell).1]
  rfl

theorem Reads.getWord (h : Reads o (bs ++ rest) v) :
    ∃ v', getWord bs.length v = .ok (wordOf o bs.length bs) v' ∧
      Reads o rest v' := by
  have hrem := h.remaining
  rw [List.length_append] at hrem
  refine ⟨_, ?_, h.skipped⟩
  rw [Op.getWord, Fallible.bind_ok (nextGetIndex_ok (by omega)),
    Fallible.bind_ok (h.offset (w := Op.skipped v bs.length) rfl),
    Fallible.bind_ok (h.getInternals (w := Op.skipped v bs.length) rfl),
    Fallible.get_bind, ← h.order]
  rfl

theorem Reads.get (h : Reads o (b :: rest) v) :
    ∃ v', get v = .ok b v' ∧ Reads o rest v' := by
  have h' : Reads o ([b] ++ rest) v := h
  have hrem := h.remaining
  rw [List.length_cons] at hrem
  refine ⟨_, ?_, h'.skipped⟩
  rw [Op.get, Fallible.bind_ok (nextGetIndex_ok (by omega)),
    Fallible.bind_ok (h.offset (w := Op.skipped v 1) rfl)]
  exact h.getInternal rfl

theorem checkIndex_ok
    {i m : Int} (hge : 0 ≤ i) (hle : i + m ≤ v.buf.limit) :
    checkIndex i m v = .ok i v := by
  apply base_ok
  rw [Buffer.checkIndex, if_neg (by omega)]
  rfl

/-- Looking at the next bytes leaves them. -/
theorem Reads.getWordAt (h : Reads o (bs ++ rest) v) :
    getWordAt bs.length v.buf.position v = .ok (wordOf o bs.length bs) v := by
  obtain ⟨h₁, h₂, h₃, h₄, h₅, h₆⟩ := h.valid.numbers
  have hrem := h.remaining
  have hrem' : v.buf.remaining = v.buf.limit - v.buf.position := rfl
  rw [List.length_append] at hrem
  rw [Op.getWordAt, Fallible.bind_ok (checkIndex_ok h₃ (by omega)),
    Fallible.bind_ok (h.offset (w := v) rfl),
    Fallible.bind_ok (h.getInternals (w := v) rfl), Fallible.get_bind,
    ← h.order]
  rfl

theorem Reads.getAt (h : Reads o (b :: rest) v) :
    getAt v.buf.position v = .ok b v := by
  obtain ⟨h₁, h₂, h₃, h₄, h₅, h₆⟩ := h.valid.numbers
  have hrem := h.remaining
  have hrem' : v.buf.remaining = v.buf.limit - v.buf.position := rfl
  rw [List.length_cons] at hrem
  rw [Op.getAt, Fallible.bind_ok (checkIndex_ok h₃ (by omega)),
    Fallible.bind_ok (h.offset (w := v) rfl)]
  exact h.getInternal rfl

/-- A view after room was made: nothing is lost, and the position stays. -/
structure Grown (v w : View) : Prop where
  valid : w.Valid
  position : w.buf.position = v.buf.position
  limit_le : v.buf.limit ≤ w.buf.limit
  readOnly : w.buf.readOnly = v.buf.readOnly
  autoExpand : w.buf.autoExpand = v.buf.autoExpand
  allowed : w.buf.recapacityAllowed = v.buf.recapacityAllowed

theorem Grown.refl (hv : v.Valid) : Grown v v :=
  ⟨hv, rfl, le_refl _, rfl, rfl, rfl⟩

theorem Grown.trans {w t : View} (hfirst : Grown v w) (hrest : Grown w t) :
    Grown v t :=
  ⟨hrest.valid, hrest.position.trans hfirst.position,
    hfirst.limit_le.trans hrest.limit_le,
    hrest.readOnly.trans hfirst.readOnly,
    hrest.autoExpand.trans hfirst.autoExpand,
    hrest.allowed.trans hfirst.allowed⟩

theorem setCapacity_ok
    (hv : v.Valid) (hallowed : v.buf.recapacityAllowed = true) {n : Int}
    (hlt : n < 2 ^ 31) :
    ∃ w, setCapacity n v = .ok () w ∧ Grown v w ∧
      w.buf.limit = v.buf.limit ∧ n ≤ w.buf.capacity := by
  obtain ⟨h₁, h₂, h₃, h₄, h₅, h₆⟩ := hv.numbers
  have hvalid : ∀ w, setCapacity n v = .ok () w → w.Valid := fun w hres =>
    ((@keeps_setCapacity false n hlt).returned hv trivial hres).1
  rw [setCapacity, Fallible.get_bind,
    if_neg (Bool.not_eq_false _ ▸ hallowed)] at hvalid ⊢
  by_cases hgt : n > v.buf.capacity
  · rw [if_pos hgt, blockCopy_zeros hv.offset_ge (by omega) hv.window
      (by omega)] at hvalid ⊢
    exact ⟨_, rfl, ⟨hvalid _ rfl, rfl, le_refl _, rfl, rfl, rfl⟩, rfl,
      le_refl _⟩
  · rw [if_neg hgt]
    exact ⟨v, rfl, .refl hv, rfl, not_lt.mp hgt⟩

theorem baseSetLimit_ok
    (hv : v.Valid) {e : Int} (hge : v.buf.limit ≤ e)
    (hle : e ≤ v.buf.capacity) :
    ∃ w, baseSet (Buffer.setLimit e) v = .ok () w ∧ Grown v w ∧
      w.buf.limit = e := by
  obtain ⟨h₁, h₂, h₃, h₄, h₅, h₆⟩ := hv.numbers
  have hset := Buffer.setLimit_of_le ((h₃.trans h₄).trans hge) hle
  refine ⟨_, baseSet_ok hset, ⟨hv.numbered (hv.numbers.setLimit hset) rfl,
    ?_, hge, rfl, rfl, rfl⟩, rfl⟩
  exact if_neg (not_lt.mpr (h₄.trans hge))

/-- Room is made up to where it is asked for, in a buffer that expands. -/
theorem autoExpand0_ok
    (hv : v.Valid) {pos n : Int} (hge : 0 ≤ pos + n)
    (hlt : pos + n < 2 ^ 31) :
    ∃ w, autoExpand0 pos n v = .ok () w ∧ Grown v w ∧
      (v.buf.autoExpand = true → v.buf.recapacityAllowed = true →
        pos + n ≤ w.buf.limit) := by
  have hwrap : int32 (pos + n) = pos + n :=
    int32_of_bounds (by omega) (by omega)
  obtain ⟨hle, -, hlt'⟩ := le_normalizeCapacity hlt
  rw [autoExpand0, Fallible.get_bind]
  by_cases hauto : v.buf.autoExpand = true ∧ v.buf.recapacityAllowed = true
  · obtain ⟨w, hfirst, hgrown, hlimit, hcap⟩ : ∃ w,
        onlyIf (normalizeCapacity (pos + n) > v.buf.capacity)
          (setCapacity (normalizeCapacity (pos + n))) v = .ok () w ∧
        Grown v w ∧ w.buf.limit = v.buf.limit ∧
          normalizeCapacity (pos + n) ≤ w.buf.capacity := by
      by_cases hmore : normalizeCapacity (pos + n) > v.buf.capacity
      · rw [onlyIf_true hmore]
        exact setCapacity_ok hv hauto.2 hlt'
      · rw [onlyIf_false hmore]
        exact ⟨v, rfl, .refl hv, rfl, not_lt.mp hmore⟩
    rw [onlyIf_true hauto, expandTo, Fallible.get_bind,
      if_neg (Bool.not_eq_false _ ▸ hauto.2), if_pos rfl, hwrap,
      Fallible.bind_ok hfirst]
    by_cases hmore : pos + n > v.buf.limit
    · obtain ⟨t, hset, hgrown', hend⟩ :=
        baseSetLimit_ok hgrown.valid (hlimit.le.trans hmore.le)
          (hle.trans hcap)
      rw [onlyIf_true hmore]
      exact ⟨t, hset, hgrown.trans hgrown', fun _ _ => hend.ge⟩
    · rw [onlyIf_false hmore]
      exact ⟨w, rfl, hgrown, fun _ _ => (not_lt.mp hmore).trans hlimit.ge⟩
  · rw [onlyIf_false hauto]
    exact ⟨v, rfl, .refl hv, fun h h' => absurd ⟨h, h'⟩ hauto⟩

/-- A position up to the limit is set, expanded or not. -/
theorem setPosition_ok
    (hv : v.Valid) {n : Int} (hge : 0 ≤ v.buf.position + n)
    (hle : n ≤ v.buf.remaining) :
    ∃ w, setPosition (v.buf.position + n) v = .ok () w ∧
      Grown (Op.skipped v n) w := by
  have hrem : v.buf.remaining = v.buf.limit - v.buf.position := rfl
  have hset := Buffer.setPosition_of_le (b := v.buf.toBuffer) hge (by omega)
  have hvalid := hv.numbered (hv.numbers.setPosition hset) rfl
  have hcap := hv.numbers.capacity_lt
  have hlimit := hv.numbers.limit_le
  obtain ⟨w, hres, hgrown, -⟩ := @autoExpand0_ok _ hvalid
    (v.buf.position + n) 0 (by omega) (by omega)
  refine ⟨w, ?_, hgrown.valid, hgrown.position, hgrown.limit_le,
    hgrown.readOnly, hgrown.autoExpand, hgrown.allowed⟩
  rw [setPosition, Fallible.bind_ok (baseSet_ok hset), hres]

/-- Bytes that are there are copied out. -/
theorem Reads.getArray
    (h : Reads o (bs ++ rest) v) (hlt : bs.length < 2 ^ 31) :
    ∃ dst v', getArray (Bytes.zeros bs.length) 0 bs.length v = .ok dst v' ∧
      dst.length = bs.length ∧ dst.cells.read 0 bs.length = bs ∧
        Reads o rest v' := by
  obtain ⟨h₁, h₂, h₃, h₄, h₅, h₆⟩ := h.valid.numbers
  have hwindow := h.valid.window
  have hoffset := h.valid.offset_ge
  have hrem := h.remaining
  have hrem' : v.buf.remaining = v.buf.limit - v.buf.position := rfl
  rw [List.length_append] at hrem
  have hlength : (Bytes.zeros bs.length).length = bs.length :=
    Int.toNat_natCast _
  have hcheck : check (Buffer.checkBounds 0 bs.length
      (Bytes.zeros bs.length).length) v = .ok () v := by
    apply base_ok
    rw [hlength, (Buffer.checkBounds_eq_ok zero_lt_size (by omega)
      (by omega) (by omega)).mpr ⟨le_refl _, by omega, by omega⟩]
    rfl
  have hwrap : int32 (v.buf.position + bs.length) =
      v.buf.position + bs.length :=
    int32_of_bounds (by omega) (by omega)
  obtain ⟨v', hset, -⟩ := setPosition_ok h.valid (n := bs.length) (by omega)
    (by omega)
  obtain ⟨hvalid, -, hshows⟩ := (@setPosition_shows false _ _ _
    (v.buf.position + bs.length)).returned h.valid ⟨rfl, rfl, rfl⟩ hset
  refine ⟨{ Bytes.zeros bs.length with
    cells := Memory.store (fun _ => 0) 0
      (v.hb.cells.read (v.buf.position + v.buf.offset).toNat bs.length) },
    v', ?_, hlength, ?_, hvalid, hshows.order.trans h.order, ?_⟩
  · rw [Op.getArray, Fallible.bind_ok hcheck, Fallible.get_bind,
      if_neg (by omega), Fallible.bind_ok (h.offset (w := v) rfl),
      blockCopy_eq (by omega) (le_refl _) (by omega) (by omega)
        (by rw [hlength]; omega)]
    dsimp only
    rw [hwrap, Fallible.bind_ok hset]
    rfl
  · dsimp only
    rw [Memory.read_store _ _ (by rw [Memory.read_length]), h.cells,
      List.take_length]
  · have hposition : (v.buf.position + bs.length).toNat =
        v.buf.position.toNat + bs.length := by
      omega
    have hunread := h.unread
    have hat : v'.buf.position = v.buf.position + bs.length :=
      hshows.position
    unfold View.unread at hunread ⊢
    rw [hshows.shown, hat, hposition, ← List.drop_drop, hunread,
      List.drop_left]

end Reading

section Searching

variable {bs : List UInt8} {b : UInt8} {v : View}

/-- The loop of `IndexOf` finds the first byte of a list that it reads. -/
theorem indexLoop_eq
    {read : Int → Op UInt8} {i : Int}
    (hread : ∀ (j : Nat) (h : j < bs.length), read (i + j) v = .ok bs[j] v) :
    indexLoop read b i bs.length v =
      .ok (if b ∈ bs then i + bs.idxOf b else -1) v := by
  induction bs generalizing i with
  | nil =>
      rfl
  | cons x bs ih =>
      have hfirst : read i v = .ok x v := by
        have h := hread 0 (Nat.succ_pos _)
        rwa [Nat.cast_zero, add_zero] at h
      have hrest : ∀ (j : Nat) (h : j < bs.length),
          read (i + 1 + j) v = .ok bs[j] v := by
        intro j hj
        have h := hread (j + 1) (Nat.succ_lt_succ hj)
        have hnext : i + 1 + j = i + (j + 1 : Nat) := by
          omega
        rw [hnext, h]
        rfl
      rw [List.length_cons, indexLoop, Fallible.bind_ok hfirst]
      by_cases heq : x = b
      · rw [if_pos heq, if_pos (heq ▸ List.mem_cons_self), heq,
          List.idxOf_cons_self, Nat.cast_zero, add_zero]
        rfl
      · rw [if_neg heq, ih hrest, List.idxOf_cons_ne _ heq]
        by_cases hmem : b ∈ bs
        · have hnext : i + 1 + bs.idxOf b = i + (bs.idxOf b + 1 : Nat) := by
            omega
          rw [if_pos hmem, if_pos (List.mem_cons_of_mem x hmem), hnext]
        · have hnone : b ∉ x :: bs := by
            simp [hmem, Ne.symm heq]
          rw [if_neg hmem, if_neg hnone]

/-- A byte that is left, by its index in the array. -/
theorem getInternal_unread (hv : v.Valid) {j : Nat} (hj : j < v.unread.length) :
    getInternal (v.buf.position + j + v.buf.offset) v =
      .ok v.unread[j] v := by
  obtain ⟨h₁, h₂, h₃, h₄, h₅, h₆⟩ := hv.numbers
  have hwindow := hv.window
  have hoffset := hv.offset_ge
  have hrem : v.buf.remaining = v.buf.limit - v.buf.position := rfl
  have hunread := View.unread_eq hv
  have hlength : v.unread.length = v.buf.remaining.toNat := by
    rw [hunread, Memory.read_length]
  have hindex : (v.buf.position + j + v.buf.offset).toNat =
      (v.buf.position + v.buf.offset).toNat + j := by
    omega
  have hcell : v.unread[j] =
      v.hb.cells ((v.buf.position + v.buf.offset).toNat + j) := by
    simp only [hunread, Memory.read, List.getElem_map, List.getElem_range]
  rw [getInternal, Fallible.get_bind, if_pos ⟨by omega, by omega⟩, hindex,
    hcell]
  rfl

/--
`IndexOf` returns the position of the first such byte that is left, or -1, in
the array of the buffer or byte by byte.
-/
theorem indexOf_eq (hv : v.Valid) (b : UInt8) :
    indexOf b v = .ok (if b ∈ v.unread
      then v.buf.position + v.unread.idxOf b else -1) v := by
  obtain ⟨h₁, h₂, h₃, h₄, h₅, h₆⟩ := hv.numbers
  have hrem : v.buf.remaining = v.buf.limit - v.buf.position := rfl
  have hlength : v.unread.length = v.buf.remaining.toNat := by
    rw [View.unread_eq hv, Memory.read_length]
  rw [indexOf, Fallible.get_bind]
  by_cases hread : v.buf.readOnly = false
  · have hloop := @indexLoop_eq v.unread b v
      (fun i => getInternal (i + (v.buf.position + v.buf.offset))) 0 ?_
    · rw [if_pos hread, Fallible.bind_ok (offset_eq hv h₃ (h₄.trans h₅)),
        ← hlength, Fallible.bind_ok hloop]
      by_cases hmem : b ∈ v.unread
      · rw [if_pos hmem, if_pos hmem, if_neg (by omega), zero_add, add_comm]
        rfl
      · rw [if_neg hmem, if_neg hmem, if_pos rfl]
        rfl
    · intro j hj
      have hat : (0 : Int) + j + (v.buf.position + v.buf.offset) =
          v.buf.position + j + v.buf.offset := by
        omega
      rw [hat]
      exact getInternal_unread hv hj
  · have hloop := @indexLoop_eq v.unread b v getAt v.buf.position ?_
    · rw [if_neg hread, ← hrem, ← hlength]
      exact hloop
    · intro j hj
      rw [Op.getAt, Fallible.bind_ok (checkIndex_ok (by omega) (by omega)),
        Fallible.bind_ok (offset_eq hv (by omega) (by omega))]
      exact getInternal_unread hv hj

/-- Three bytes are left of four. -/
def four : View where
  buf :=
    { mark := -1, position := 1, limit := 4, capacity := 4
      derived := false, recapacityAllowed := true, minimumCapacity := 4
      offset := 0 }
  hb := Bytes.ofList [7, 5, 7, 9]

theorem indexOf_eq_four : indexOf 7 four = .ok 2 four := by
  have hvalid : four.Valid := by
    constructor <;> simp [four, Bytes.ofList]
    constructor <;> simp
  exact indexOf_eq hvalid 7

end Searching

section Writing

/-- The bytes in front of the position. -/
structure Wrote (o : ByteOrder) (xs : List UInt8) (v : View) : Prop where
  position : v.buf.position = xs.length
  order : v.buf.order = o
  starts : xs <+: v.shown

/-- There is room for `n` more bytes, and the position is behind it. -/
structure Reserved (o : ByteOrder) (xs : List UInt8) (n : Nat) (v : View) :
    Prop where
  position : v.buf.position = xs.length + n
  order : v.buf.order = o
  starts : xs <+: v.shown

variable {o : ByteOrder} {xs bs : List UInt8} {v : View}
variable {writes : Bool}

/-- Making room keeps what was written. -/
theorem autoExpand0_wrote (pos n : Int) :
    (contract writes).Keeps (Wrote o xs) (autoExpand0 pos n)
      (fun _ => Wrote o xs) := by
  intro s hinv hwrote
  refine (autoExpand0_shows pos n s hinv
    ⟨hwrote.position, hwrote.order, rfl⟩).weaken ?_
  intro _ t _ _ hextends
  exact ⟨hextends.position, hextends.order,
    hwrote.starts.trans hextends.starts⟩

theorem autoExpandHere_wrote (n : Int) :
    (contract writes).Keeps (Wrote o xs) (autoExpandHere n)
      (fun _ => Wrote o xs) := by
  refine Contract.Keeps.get_bind (fun v _ hwrote => ?_)
  refine (autoExpand0_wrote v.buf.position n).weaken ?_ (fun _ _ _ => id)
  rintro s - rfl
  exact hwrote

theorem nextPutIndex_reserves (n : Nat) :
    (contract writes).Keeps (Wrote o xs) (nextPutIndex n)
      (fun p s => p = xs.length ∧ Reserved o xs n s) := by
  refine keeps_base ?_ (fun _ _ => nextIndex_error (by simp))
  intro v hinv hwrote p b hnext
  have hvalid := hinv.numbers.nextIndex (Int.natCast_nonneg n) hnext
  obtain ⟨rfl, -, rfl⟩ := Buffer.nextIndex_eq_ok hnext
  refine ⟨hvalid, rfl, hwrote.position, ?_, hwrote.order, hwrote.starts⟩
  show v.buf.position + n = _
  rw [hwrote.position]

theorem offset_reserved {n : Nat} {p : Int} :
    (contract writes).Keeps
      (fun s => p = xs.length ∧ Reserved o xs n s) (offset p)
      (fun i s => i = xs.length + s.buf.offset ∧ Reserved o xs n s) := by
  rintro s hinv ⟨rfl, hres⟩
  obtain ⟨h₁, h₂, h₃, h₄, h₅, h₆⟩ := hinv.numbers
  have hposition := hres.position
  rw [offset_eq hinv (Int.natCast_nonneg _) (by omega)]
  exact .ok hinv (View.Frame.refl s) ⟨rfl, hres⟩

/-- The view with bytes written into the array. -/
def stored (v : View) (i : Int) (bs : List UInt8) : View :=
  { v with hb := { v.hb with cells := v.hb.cells.store i.toNat bs } }

theorem putInternals_eq
    {i : Int} (hread : v.buf.readOnly = false) (hge : 0 ≤ i)
    (hle : i + bs.length ≤ v.hb.length) :
    putInternals i bs v = .ok () (stored v i bs) := by
  induction bs generalizing i v with
  | nil =>
      rw [stored, Memory.store_nil]
      rfl
  | cons b bs ih =>
      rw [List.length_cons] at hle
      have hfirst : putInternal i b v = .ok () (stored v i [b]) := by
        rw [putInternal, Fallible.get_bind, if_neg (by simp [hread]),
          if_pos ⟨hge, by omega⟩]
        rfl
      have hrest := @ih (stored v i [b]) (i + 1) hread (by omega)
        (show _ ≤ (v.hb.length : Int) by omega)
      have hall : stored (stored v i [b]) (i + 1) bs =
          stored v i (b :: bs) := by
        have hnext : (i + 1).toNat = i.toNat + 1 := by
          omega
        rw [stored, stored, stored, hnext]
        dsimp only
        rw [Memory.store_cons]
      rw [putInternals, Fallible.bind_ok hfirst, hrest, hall]

theorem putInternals_readOnly
    {i : Int} {b : UInt8} (hread : v.buf.readOnly = true) :
    putInternals i (b :: bs) v = .error .notSupported v := by
  have hfirst : putInternal i b v = .error .notSupported v := by
    rw [putInternal, Fallible.get_bind, if_pos hread]
    rfl
  rw [putInternals, Fallible.bind_error hfirst]

/-- Bytes in the array behind those that were written. -/
theorem starts_store
    (hv : v.Valid) (hstarts : xs <+: v.shown)
    (hroom : xs.length + bs.length ≤ v.buf.limit) :
    xs ++ bs <+: (stored v (xs.length + v.buf.offset) bs).shown := by
  have hoffset := hv.offset_ge
  have hxs := List.prefix_iff_eq_take.mp hstarts
  rw [View.shown, Memory.take_read _ _ (by omega)] at hxs
  have hstart : (xs.length + v.buf.offset).toNat =
      v.buf.offset.toNat + xs.length := by
    omega
  have hall : (stored v (xs.length + v.buf.offset) bs).shown.take
      (xs.length + bs.length) = xs ++ bs := by
    rw [View.shown, stored, hstart]
    dsimp only
    rw [Memory.take_read _ _ (by omega), Memory.read_add,
      Memory.read_store_of_le _ _ (le_refl _), ← hxs,
      Memory.read_store _ _ (le_refl _), List.take_length]
  rw [← hall]
  exact List.take_prefix _ _

/-- The bytes of a word go where there is room for them. -/
theorem putInternals_wrote {i : Int} :
    (contract true).Keeps
      (fun s => i = xs.length + s.buf.offset ∧ Reserved o xs bs.length s)
      (putInternals i bs) (fun _ => Wrote o (xs ++ bs)) := by
  rintro s hinv ⟨rfl, hres⟩
  obtain ⟨h₁, h₂, h₃, h₄, h₅, h₆⟩ := hinv.numbers
  have hposition := hres.position
  have hwindow := hinv.window
  have hoffset := hinv.offset_ge
  have hend := keeps_putInternals (xs.length + s.buf.offset) bs s hinv
    ⟨by omega, by omega⟩
  cases hread : s.buf.readOnly with
  | false =>
      rw [putInternals_eq hread (by omega) (by omega)] at hend ⊢
      cases hend with
      | ok hinv' hrel _ =>
          refine .ok hinv' hrel ⟨?_, hres.order, ?_⟩
          · rw [List.length_append]
            push_cast
            exact hposition
          · exact starts_store hinv hres.starts (by omega)
  | true =>
      cases hbs : bs with
      | nil =>
          refine .ok hinv (View.Frame.refl s) ⟨?_, hres.order, ?_⟩
          · rw [List.append_nil, hposition, hbs]
            simp
          · rw [List.append_nil]
            exact hres.starts
      | cons b rest =>
          rw [putInternals_readOnly hread]
          exact .error nofun hinv (View.Frame.refl s)

theorem putWord_wrote (w : Nat) (value : BitVec (8 * w)) :
    (contract true).Keeps (Wrote o xs) (putWord w value)
      (fun _ => Wrote o (xs ++ bytesOf o w value)) := by
  refine (autoExpandHere_wrote _).bind (fun _ => ?_)
  refine (nextPutIndex_reserves w).bind (fun p => ?_)
  refine offset_reserved.bind (fun i => ?_)
  refine Contract.Keeps.get_bind (fun v _ hat => ?_)
  rw [hat.2.order]
  refine putInternals_wrote.weaken (fun s _ heq => ?_) (fun _ _ _ => id)
  rw [heq, bytesOf_length]
  exact hat

theorem putInternals_singleton (i : Int) (b : UInt8) :
    putInternals i [b] = putInternal i b := by
  rw [putInternals]
  exact bind_pure_unit

theorem checkBounds_ofList (hlt : bs.length < 2 ^ 31) :
    check (Buffer.checkBounds 0 bs.length (Bytes.ofList bs).length) =
      pure () := by
  have hlength : (Bytes.ofList bs).length = bs.length := rfl
  funext v
  apply base_ok
  rw [hlength, (Buffer.checkBounds_eq_ok zero_lt_size (by omega)
    (by omega) (by omega)).mpr ⟨le_refl _, by omega, by omega⟩]
  rfl

/-- A whole array is copied. -/
theorem blockCopy_ofList
    {i : Int} (hge : 0 ≤ i) (hle : i + bs.length ≤ v.hb.length) :
    (Bytes.ofList bs).blockCopy 0 v.hb i bs.length =
      some (stored v i bs).hb := by
  have hcells : (Bytes.ofList bs).cells.read 0 bs.length = bs :=
    (Memory.holds_store _ 0 bs).read_eq
  rw [blockCopy_eq (le_refl _) hge (by omega)
    (show (0 : Int) + bs.length ≤ (bs.length : Nat) by omega) hle]
  show some (Bytes.mk _ (Memory.store _ _
    ((Bytes.ofList bs).cells.read 0 bs.length))) = _
  rw [hcells]
  rfl

theorem put_wrote (b : UInt8) :
    (contract true).Keeps (Wrote o xs) (put b)
      (fun _ => Wrote o (xs ++ [b])) := by
  refine (autoExpandHere_wrote 1).bind (fun _ => ?_)
  refine (nextPutIndex_reserves 1).bind (fun p => ?_)
  refine offset_reserved.bind (fun i => ?_)
  rw [← putInternals_singleton]
  exact @putInternals_wrote o xs [b] i

theorem setOrder_wrote (value : ByteOrder) :
    (contract writes).Keeps (Wrote o xs) (setOrder value)
      (fun _ => Wrote value xs) := by
  refine Contract.Keeps.modify (fun s hinv hwrote => ⟨?_, ?_, ?_⟩)
  · exact hinv.withFlags value _ _
  · exact .of_same rfl rfl id rfl rfl rfl rfl
  · exact ⟨hwrote.position, rfl, hwrote.starts⟩

/-- A block goes where there is room for it. -/
theorem putBlock_wrote
    (hread : v.buf.readOnly = false) (hwrote : Wrote o xs v)
    (hroom : bs.length ≤ v.buf.remaining) :
    (contract true).Keeps (fun s => s = v)
      (putBlock (Bytes.ofList bs) 0 bs.length)
      (fun _ => Wrote o (xs ++ bs)) := by
  refine Contract.Keeps.get_bind (fun s hinv heq => ?_)
  subst heq
  obtain ⟨h₁, h₂, h₃, h₄, h₅, h₆⟩ := hinv.numbers
  have hwindow := hinv.window
  have hoffset := hinv.offset_ge
  have hposition := hwrote.position
  have hrem : s.buf.remaining = s.buf.limit - s.buf.position := rfl
  have hstore : (contract true).Keeps (fun t => t = s)
      (modify (fun t : View =>
        { t with hb := (stored s (s.buf.position + s.buf.offset) bs).hb }))
      (fun _ t => t = stored s (s.buf.position + s.buf.offset) bs) := by
    rintro t ht rfl
    have hend := @keeps_store t (t.buf.position + t.buf.offset) bs hread
      ⟨by omega, by omega⟩ t ht rfl
    cases hend with
    | ok ht' hrel _ =>
        exact .ok ht' hrel rfl
  have hwrap : int32 (s.buf.position + bs.length) =
      s.buf.position + bs.length :=
    int32_of_bounds (by omega) (by omega)
  refine Contract.Keeps.known_bind (offset_eq hinv h₃ (by omega)) ?_
  rw [blockCopy_ofList (by omega) (by omega), hwrap]
  refine hstore.bind (fun _ => ?_)
  refine (@setPosition_shows true s.buf.position o
    (stored s (s.buf.position + s.buf.offset) bs).shown _).weaken ?_ ?_
  · rintro t - rfl
    exact ⟨rfl, hwrote.order, rfl⟩
  · intro _ t _ hshows
    refine ⟨?_, hshows.order, ?_⟩
    · rw [List.length_append, Nat.cast_add, ← hposition]
      exact hshows.position
    · rw [hshows.shown, hposition]
      exact starts_store hinv hwrote.starts (by omega)

theorem putBytes_wrote (hlt : bs.length < 2 ^ 31) :
    (contract true).Keeps (Wrote o xs) (putBytes bs)
      (fun _ => Wrote o (xs ++ bs)) := by
  rw [putBytes, putArray, checkBounds_ofList hlt, pure_bind]
  refine (autoExpandHere_wrote _).bind (fun _ => ?_)
  refine Contract.Keeps.get_bind (fun v hinv hwrote => ?_)
  refine Contract.Keeps.ite (fun _ => .throw nofun) (fun hroom => ?_)
  refine Contract.Keeps.ite (fun _ => .throw nofun) (fun hread => ?_)
  exact putBlock_wrote (Bool.eq_false_iff.mpr hread) hwrote (not_lt.mp hroom)

/-- There is room for `n` more bytes, or it can be made. -/
structure Accepts (n : Nat) (v : View) : Prop where
  valid : v.Valid
  writable : v.buf.readOnly = false
  room : v.buf.position + n ≤ v.buf.limit ∨
    (v.buf.autoExpand = true ∧ v.buf.recapacityAllowed = true ∧
      v.buf.position + n < 2 ^ 31)

variable {m n : Nat}

theorem Accepts.advance
    {w : View} (h : Accepts (m + n) v) (hgrown : Grown (Op.skipped v m) w) :
    Accepts n w := by
  have hposition : w.buf.position = v.buf.position + m := hgrown.position
  have hle : v.buf.limit ≤ w.buf.limit := hgrown.limit_le
  refine ⟨hgrown.valid, hgrown.readOnly.trans h.writable, ?_⟩
  rcases h.room with hroom | ⟨hauto, hallowed, hlt⟩
  · left
    omega
  · right
    exact ⟨hgrown.autoExpand.trans hauto, hgrown.allowed.trans hallowed,
      by omega⟩

theorem autoExpandHere_ok (h : Accepts (m + n) v) :
    ∃ w, autoExpandHere m v = .ok () w ∧ Accepts (m + n) w ∧
      m ≤ w.buf.remaining := by
  obtain ⟨h₁, h₂, h₃, h₄, h₅, h₆⟩ := h.valid.numbers
  have hlt : v.buf.position + m < 2 ^ 31 := by
    rcases h.room with hroom | ⟨-, -, hroom⟩
    · omega
    · omega
  obtain ⟨w, hres, hgrown, hmade⟩ := @autoExpand0_ok _ h.valid
    v.buf.position m (by omega) hlt
  have hposition := hgrown.position
  have hle := hgrown.limit_le
  have hrem : w.buf.remaining = w.buf.limit - w.buf.position := rfl
  refine ⟨w, ?_, ⟨hgrown.valid, hgrown.readOnly.trans h.writable, ?_⟩, ?_⟩
  · rw [autoExpandHere, Fallible.get_bind, hres]
  · rw [hposition, hgrown.autoExpand, hgrown.allowed]
    exact h.room.imp (fun hroom => hroom.trans hle) id
  · rcases h.room with hroom | ⟨hauto, hallowed, -⟩
    · omega
    · have hend := hmade hauto hallowed
      omega

/-- The bytes of a value go behind the position. -/
theorem Accepts.place
    (h : Accepts (m + n) v) (hroom : m ≤ v.buf.remaining) :
    nextPutIndex m v = .ok v.buf.position (Op.skipped v m) ∧
    offset v.buf.position (Op.skipped v m) =
      .ok (v.buf.position + v.buf.offset) (Op.skipped v m) ∧
    ∀ bs : List UInt8, bs.length = m →
      putInternals (v.buf.position + v.buf.offset) bs (Op.skipped v m) =
        .ok () (stored (Op.skipped v m) (v.buf.position + v.buf.offset) bs) ∧
      Accepts n
        (stored (Op.skipped v m) (v.buf.position + v.buf.offset) bs) := by
  obtain ⟨h₁, h₂, h₃, h₄, h₅, h₆⟩ := h.valid.numbers
  have hrem : v.buf.remaining = v.buf.limit - v.buf.position := rfl
  have hwindow := h.valid.window
  have hoffset := h.valid.offset_ge
  have hvalid : (Op.skipped v m).Valid := by
    refine h.valid.numbered ⟨h₁, ?_, ?_, ?_, h₅, h₆⟩ rfl
    · dsimp only
      omega
    · dsimp only
      omega
    · dsimp only
      omega
  have hnext : nextPutIndex m v = .ok v.buf.position (Op.skipped v m) := by
    apply base_ok
    rw [Buffer.nextIndex, if_neg (by omega)]
  refine ⟨hnext, offset_eq hvalid h₃ (h₄.trans h₅), ?_⟩
  intro bs hlength
  refine ⟨putInternals_eq h.writable (by omega) ?_, h.advance
    ⟨hvalid.withCells _, rfl, le_refl _, rfl, rfl, rfl⟩⟩
  show _ ≤ (v.hb.length : Int)
  omega

theorem put_ok (h : Accepts (1 + n) v) (b : UInt8) :
    ∃ w, put b v = .ok () w ∧ Accepts n w := by
  obtain ⟨w, hexpand, hw, hroom⟩ := autoExpandHere_ok h
  obtain ⟨hnext, hoffset, hstore⟩ := hw.place hroom
  obtain ⟨hput, hrest⟩ := hstore [b] rfl
  rw [Nat.cast_one] at hexpand hnext hoffset hput hrest
  refine ⟨_, ?_, hrest⟩
  rw [put, Fallible.bind_ok hexpand, Fallible.bind_ok hnext,
    Fallible.bind_ok hoffset, ← putInternals_singleton, hput]

theorem putWord_ok
    {w : Nat} (h : Accepts (w + n) v) (value : BitVec (8 * w)) :
    ∃ t, putWord w value v = .ok () t ∧ Accepts n t := by
  obtain ⟨t, hexpand, ht, hroom⟩ := autoExpandHere_ok h
  obtain ⟨hnext, hoffset, hstore⟩ := ht.place hroom
  obtain ⟨hput, hrest⟩ :=
    hstore (bytesOf t.buf.order w value) (bytesOf_length _ _ _)
  refine ⟨_, ?_, hrest⟩
  rw [putWord, Fallible.bind_ok hexpand, Fallible.bind_ok hnext,
    Fallible.bind_ok hoffset, Fallible.get_bind]
  exact hput

theorem putBytes_ok (h : Accepts (bs.length + n) v)
    (hlt : bs.length < 2 ^ 31) :
    ∃ w, putBytes bs v = .ok () w ∧ Accepts n w := by
  obtain ⟨t, hexpand, ht, hroom⟩ := autoExpandHere_ok h
  obtain ⟨h₁, h₂, h₃, h₄, h₅, h₆⟩ := ht.valid.numbers
  have hrem : t.buf.remaining = t.buf.limit - t.buf.position := rfl
  have hwindow := ht.valid.window
  have hoffset := ht.valid.offset_ge
  have hwrap : int32 (t.buf.position + bs.length) =
      t.buf.position + bs.length :=
    int32_of_bounds (by omega) (by omega)
  obtain ⟨w, hset, hgrown⟩ := setPosition_ok
    (v := stored t (t.buf.position + t.buf.offset) bs)
    (ht.valid.withCells _)
    (show 0 ≤ t.buf.position + bs.length by omega) hroom
  refine ⟨w, ?_, ht.advance ⟨hgrown.valid, hgrown.position,
    hgrown.limit_le, hgrown.readOnly, hgrown.autoExpand, hgrown.allowed⟩⟩
  rw [putBytes, putArray, checkBounds_ofList hlt, pure_bind,
    Fallible.bind_ok hexpand, Fallible.get_bind,
    if_neg (not_lt.mpr hroom), if_neg (by simp [ht.writable]), putBlock,
    Fallible.get_bind,
    Fallible.bind_ok (offset_eq ht.valid h₃ (h₄.trans h₅)),
    blockCopy_ofList (by omega) (by omega)]
  dsimp only
  rw [hwrap]
  exact hset

end Writing

/-- What a program puts into a buffer, one behind the other. -/
inductive Item where
  | byte (b : UInt8)
  /-- A `Char`, an `Int16`, …, of `w` bytes. -/
  | word (w : Nat) (value : BitVec (8 * w))
  | array (bs : List UInt8)
  /-- The order of the words behind it. -/
  | order (value : ByteOrder)

namespace Item

/-- An array has a length that an `Int32` can have. -/
def Valid : Item → Prop
  | array bs => bs.length < 2 ^ 31
  | _ => True

def put : Item → Op Unit
  | byte b => Op.put b
  | word w value => putWord w value
  | array bs => putBytes bs
  | order value => setOrder value

/-- Get what was put: the item says of which kind and length it was. -/
def get : Item → Op Item
  | byte _ => do
      let b ← Op.get
      pure (byte b)
  | word w _ => do
      let value ← getWord w
      pure (word w value)
  | array bs => do
      let dst ← getArray (Bytes.zeros bs.length) 0 bs.length
      pure (array (dst.cells.read 0 dst.length))
  | order value => do
      setOrder value
      pure (order value)

/-- The bytes that an item takes. -/
def bytes (o : ByteOrder) : Item → List UInt8
  | byte b => [b]
  | word w value => bytesOf o w value
  | array bs => bs
  | order _ => []

def orderAfter (o : ByteOrder) : Item → ByteOrder
  | order value => value
  | _ => o

end Item

def putAll : List Item → Op Unit
  | [] => pure ()
  | item :: items => do
      item.put
      putAll items

def getAll : List Item → Op (List Item)
  | [] => pure []
  | item :: items => do
      let got ← item.get
      let rest ← getAll items
      pure (got :: rest)

def bytesAll : ByteOrder → List Item → List UInt8
  | _, [] => []
  | o, item :: items => item.bytes o ++ bytesAll (item.orderAfter o) items

section Items

variable {o : ByteOrder} {xs bs rest : List UInt8} {v : View}

theorem wordOf_bytesOf (o : ByteOrder) (w : Nat) (value : BitVec (8 * w)) :
    wordOf o w (bytesOf o w value) = value := by
  have hlt : value.toNat < 256 ^ w := by
    have h := value.isLt
    rwa [pow_mul] at h
  have hvalue : BitVec.ofNat (8 * w) (leValue (leBytes w value.toNat)) =
      value := by
    rw [leValue_leBytes, Nat.mod_eq_of_lt hlt, BitVec.ofNat_toNat,
      BitVec.setWidth_eq]
  cases o with
  | BigEndian =>
      rw [wordOf, bytesOf, List.reverse_reverse, hvalue]
  | LittleEndian =>
      rw [wordOf, bytesOf, hvalue]

theorem Item.put_wrote {item : Item} (hitem : item.Valid) :
    (contract true).Keeps (Wrote o xs) item.put
      (fun _ => Wrote (item.orderAfter o) (xs ++ item.bytes o)) := by
  cases item with
  | byte b =>
      exact Op.put_wrote b
  | word w value =>
      exact putWord_wrote w value
  | array bs =>
      exact putBytes_wrote hitem
  | order value =>
      refine (setOrder_wrote value).weaken (fun _ _ => id) ?_
      intro _ s _ hwrote
      rwa [Item.bytes, List.append_nil]

theorem Item.put_ok
    {item : Item} (hitem : item.Valid) {n : Nat}
    (h : Accepts ((item.bytes o).length + n) v) :
    ∃ w, item.put v = .ok () w ∧ Accepts n w := by
  cases item with
  | byte b =>
      exact Op.put_ok h b
  | word w value =>
      rw [Item.bytes, bytesOf_length] at h
      exact putWord_ok h value
  | array bs =>
      exact putBytes_ok h hitem
  | order value =>
      refine ⟨_, rfl, h.valid.withFlags value _ _, h.writable, ?_⟩
      rw [Item.bytes, List.length_nil, Nat.zero_add] at h
      exact h.room

/-- What was put is in front of the position, in the order it was put. -/
theorem putAll_wrote {items : List Item} (hitems : ∀ i ∈ items, i.Valid) :
    (contract true).Keeps (Wrote o xs) (putAll items)
      (fun _ s => ∃ o', Wrote o' (xs ++ bytesAll o items) s) := by
  induction items generalizing o xs with
  | nil =>
      refine .pure _ (fun s hwrote => ⟨o, ?_⟩)
      rwa [bytesAll, List.append_nil]
  | cons item items ih =>
      have hfirst := @Item.put_wrote o xs item (hitems _ List.mem_cons_self)
      refine hfirst.bind (fun _ => ?_)
      refine (ih (fun i hi => hitems i (List.mem_cons_of_mem _ hi))).weaken
        (fun _ _ => id) ?_
      rintro _ s - ⟨o', hwrote⟩
      refine ⟨o', ?_⟩
      rwa [bytesAll, ← List.append_assoc]

/-- What there is room for is put. -/
theorem putAll_ok
    {items : List Item} (hitems : ∀ i ∈ items, i.Valid)
    (h : Accepts (bytesAll o items).length v) :
    ∃ w, putAll items v = .ok () w := by
  induction items generalizing o v with
  | nil =>
      exact ⟨v, rfl⟩
  | cons item items ih =>
      rw [bytesAll, List.length_append] at h
      obtain ⟨w, hput, hw⟩ := Item.put_ok (hitems _ List.mem_cons_self) h
      obtain ⟨t, hrest⟩ := ih (fun i hi =>
        hitems i (List.mem_cons_of_mem _ hi)) hw
      exact ⟨t, by rw [putAll, Fallible.bind_ok hput, hrest]⟩

theorem setOrder_reads (h : Reads o bs v) (value : ByteOrder) :
    ∃ v', setOrder value v = .ok () v' ∧ Reads value bs v' := by
  exact ⟨_, rfl, h.valid.withFlags value _ _, rfl, h.unread⟩

/-- An item whose bytes come first is what a get of its kind returns. -/
theorem Item.get_reads
    {item : Item} (hitem : item.Valid)
    (h : Reads o (item.bytes o ++ rest) v) :
    ∃ v', item.get v = .ok item v' ∧ Reads (item.orderAfter o) rest v' := by
  cases item with
  | byte b =>
      obtain ⟨v', hget, hrest⟩ := Reads.get h
      refine ⟨v', ?_, hrest⟩
      rw [Item.get, Fallible.bind_ok hget]
      rfl
  | word w value =>
      obtain ⟨v', hget, hrest⟩ := Reads.getWord h
      refine ⟨v', ?_, hrest⟩
      rw [Item.bytes, bytesOf_length] at hget
      rw [Item.get, Fallible.bind_ok hget, wordOf_bytesOf]
      rfl
  | array bs =>
      rw [Item.bytes] at h
      obtain ⟨dst, v', hget, hlength, hcells, hrest⟩ := Reads.getArray h hitem
      refine ⟨v', ?_, hrest⟩
      rw [Item.get, Fallible.bind_ok hget, hlength, hcells]
      rfl
  | order value =>
      obtain ⟨v', hset, hrest⟩ := setOrder_reads h value
      refine ⟨v', ?_, hrest⟩
      rw [Item.get, Fallible.bind_ok hset]
      rfl

theorem getAll_reads
    {items : List Item} (hitems : ∀ i ∈ items, i.Valid)
    (h : Reads o (bytesAll o items ++ rest) v) :
    ∃ o' v', getAll items v = .ok items v' ∧ Reads o' rest v' := by
  induction items generalizing o v with
  | nil =>
      exact ⟨o, v, rfl, h⟩
  | cons item items ih =>
      rw [bytesAll, List.append_assoc] at h
      obtain ⟨w, hget, hw⟩ :=
        Item.get_reads (hitems _ List.mem_cons_self) h
      obtain ⟨o', v', hrest, hv'⟩ :=
        ih (fun i hi => hitems i (List.mem_cons_of_mem _ hi)) hw
      refine ⟨o', v', ?_, hv'⟩
      rw [getAll, Fallible.bind_ok hget, Fallible.bind_ok hrest]
      rfl

/-- `Flip` turns what was written into what is to be read. -/
theorem flip_reads (hv : v.Valid) (hwrote : Wrote o xs v) :
    ∃ v', flip v = .ok () v' ∧ Reads o xs v' := by
  obtain ⟨h₁, h₂, h₃, h₄, h₅, h₆⟩ := hv.numbers
  have hposition := hwrote.position
  refine ⟨_, baseSet_ok rfl, ?_, hwrote.order, ?_⟩
  · exact hv.numbered ⟨le_refl _, neg_one_lt_zero.le, le_refl _, h₃,
      h₄.trans h₅, h₆⟩ rfl
  · have hxs := List.prefix_iff_eq_take.mp hwrote.starts
    rw [View.shown, Memory.take_read _ _ (by omega)] at hxs
    show (v.hb.cells.read v.buf.offset.toNat v.buf.position.toNat).drop 0 = xs
    rw [List.drop_zero, hposition, Int.toNat_natCast]
    exact hxs.symm

/--
A buffer at its beginning takes all items that there is, or can be made, room
for, and after `Flip` gives them back in order with nothing left behind them.
-/
theorem getAll_putAll
    {items : List Item} (hitems : ∀ i ∈ items, i.Valid)
    (hstart : v.buf.position = 0)
    (h : Accepts (bytesAll v.buf.order items).length v) :
    ∃ w t, putAll items v = .ok () w ∧
      (do flip; setOrder v.buf.order; getAll items) w = .ok items t ∧
      t.buf.remaining = 0 := by
  have hempty : Wrote v.buf.order [] v := ⟨hstart, rfl, List.nil_prefix⟩
  obtain ⟨w, hput⟩ := putAll_ok hitems h
  obtain ⟨hw, -, o, hwrote⟩ :=
    (putAll_wrote hitems).returned h.valid hempty hput
  rw [List.nil_append] at hwrote
  obtain ⟨w', hflip, hreads⟩ := flip_reads hw hwrote
  obtain ⟨w'', hset, hreads'⟩ := setOrder_reads hreads v.buf.order
  rw [← List.append_nil (bytesAll _ _)] at hreads'
  obtain ⟨o', t, hget, hend⟩ := getAll_reads hitems hreads'
  refine ⟨w, t, hput, ?_, hend.remaining⟩
  rw [Fallible.bind_ok hflip, Fallible.bind_ok hset, hget]

/-- Two bytes that expand. -/
def expanding : View where
  buf :=
    { mark := -1, position := 0, limit := 2, capacity := 2
      derived := false, autoExpand := true, recapacityAllowed := true
      minimumCapacity := 2, offset := 0 }
  hb := Bytes.zeros 2

theorem expanding_valid : expanding.Valid := by
  constructor <;> simp [expanding, Bytes.zeros]
  constructor <;> simp

/-- Words of either order among other bytes. -/
def mixed : List Item :=
  [.byte 1, .word 2 0x203, .order .BigEndian, .word 4 5, .array [6, 7, 8]]

theorem getAll_putAll_mixed :
    ∃ w t, putAll mixed expanding = .ok () w ∧
      (do flip; setOrder .LittleEndian; getAll mixed) w = .ok mixed t ∧
      t.buf.remaining = 0 := by
  have hitems : ∀ i ∈ mixed, i.Valid := by
    simp [mixed, Item.Valid]
  have haccepts : Accepts (bytesAll .LittleEndian mixed).length expanding :=
    ⟨expanding_valid, rfl, .inr ⟨rfl, rfl, by decide⟩⟩
  exact getAll_putAll hitems rfl haccepts

end Items

end Op

end Mina
end NetEngine
