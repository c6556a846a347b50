import NetEngine.Mina.ByteBuffer

/-!
# What every method of a buffer keeps

The numbers of a buffer stay in order and its window stays within its array, so
no method accesses the array outside of it.  A method changes no byte outside
the window unless it allocates a new array; a buffer that was derived from, or
is derived itself, never allocates one; and nothing changes the bytes of a
read-only buffer.  This is the contract of all methods, and it is proved method
by method, each from those it calls.
-/

namespace NetEngine
namespace Mina

open Net

/-- The numbers are in order and the window is within the array. -/
structure View.Valid (v : View) : Prop where
  numbers : v.buf.toBuffer.Valid
  offset_ge : 0 ≤ v.buf.offset
  window : v.buf.offset + v.buf.capacity ≤ v.hb.length
  length_lt : v.hb.length < 2 ^ 31
  minimum_ge : 0 ≤ v.buf.minimumCapacity
  minimum_lt : v.buf.minimumCapacity < 2 ^ 31
  derived : v.buf.derived = true → v.buf.recapacityAllowed = false
  readOnly : v.buf.readOnly = true → v.buf.recapacityAllowed = false

/--
What a method leaves alone; one that does not write leaves all bytes alone.
-/
structure View.Frame (writes : Bool) (v v' : View) : Prop where
  readOnly : v'.buf.readOnly = v.buf.readOnly
  derived : v'.buf.derived = v.buf.derived
  pinned : v.buf.recapacityAllowed = false →
    v'.buf.recapacityAllowed = false ∧ v'.fresh = v.fresh ∧
      v'.buf.offset = v.buf.offset ∧ v'.buf.capacity = v.buf.capacity ∧
        v'.hb.length = v.hb.length
  kept : v'.fresh = false →
    v.fresh = false ∧ v'.buf.offset = v.buf.offset ∧
      v'.buf.capacity = v.buf.capacity ∧ v'.hb.length = v.hb.length ∧
        ∀ i : Nat, (i < v.buf.offset ∨
          v.buf.offset + v.buf.capacity ≤ i) →
            v'.hb.cells i = v.hb.cells i
  bytes : v.buf.readOnly = true → v'.hb = v.hb
  still : writes = false → v'.fresh = false → v'.hb = v.hb

namespace View.Frame

variable {writes : Bool}

theorem refl (v : View) : Frame writes v v :=
  ⟨rfl, rfl, fun h => ⟨h, rfl, rfl, rfl, rfl⟩,
    fun h => ⟨h, rfl, rfl, rfl, fun _ _ => rfl⟩, fun _ => rfl,
    fun _ _ => rfl⟩

theorem trans {v w x : View} (h : Frame writes v w)
    (h' : Frame writes w x) :
    Frame writes v x := by
  refine ⟨h'.readOnly.trans h.readOnly, h'.derived.trans h.derived,
    ?_, ?_, ?_, ?_⟩
  · intro hpin
    obtain ⟨hpin', hfresh, hoff, hcap, hlen⟩ := h.pinned hpin
    obtain ⟨hpin'', hfresh', hoff', hcap', hlen'⟩ := h'.pinned hpin'
    exact ⟨hpin'', hfresh'.trans hfresh, hoff'.trans hoff,
      hcap'.trans hcap, hlen'.trans hlen⟩
  · intro hfresh
    obtain ⟨hfresh', hoff', hcap', hlen', hcells'⟩ := h'.kept hfresh
    obtain ⟨hfresh'', hoff, hcap, hlen, hcells⟩ := h.kept hfresh'
    refine ⟨hfresh'', hoff'.trans hoff, hcap'.trans hcap,
      hlen'.trans hlen, ?_⟩
    intro i hi
    rw [hcells' i (by rwa [hoff, hcap]), hcells i hi]
  · intro hread
    have hread' := h.readOnly.trans hread
    exact (h'.bytes hread').trans (h.bytes hread)
  · intro hwrites hfresh
    have hfresh' := (h'.kept hfresh).1
    exact (h'.still hwrites hfresh).trans (h.still hwrites hfresh')

/-- Only fields of the buffer change that say nothing about the array. -/
theorem of_same
    {v v' : View} (hread : v'.buf.readOnly = v.buf.readOnly)
    (hderived : v'.buf.derived = v.buf.derived)
    (hpin : v.buf.recapacityAllowed = false →
      v'.buf.recapacityAllowed = false)
    (hoffset : v'.buf.offset = v.buf.offset)
    (hcapacity : v'.buf.capacity = v.buf.capacity)
    (hhb : v'.hb = v.hb) (hfresh : v'.fresh = v.fresh) :
    Frame writes v v' := by
  refine ⟨hread, hderived, fun h => ⟨hpin h, hfresh, hoffset, hcapacity,
    by rw [hhb]⟩, ?_, fun _ => hhb, fun _ _ => hhb⟩
  intro h
  rw [hfresh] at h
  refine ⟨h, hoffset, hcapacity, by rw [hhb], ?_⟩
  intro i _
  rw [hhb]

/-- The array is a new one, which only a buffer on its own gets. -/
theorem of_fresh
    {v v' : View} (hvalid : v.Valid)
    (hallowed : v.buf.recapacityAllowed = true)
    (hread : v'.buf.readOnly = v.buf.readOnly)
    (hderived : v'.buf.derived = v.buf.derived)
    (hfresh : v'.fresh = true) :
    Frame writes v v' := by
  refine ⟨hread, hderived, ?_, ?_, ?_, ?_⟩
  · intro hpin
    rw [hallowed] at hpin
    cases hpin
  · intro h
    rw [hfresh] at h
    cases h
  · intro h
    have hpin := hvalid.readOnly h
    rw [hallowed] at hpin
    cases hpin
  · intro _ h
    rw [hfresh] at h
    cases h

end View.Frame

/-- The bytes of the window up to the limit. -/
def View.shown (v : View) : List UInt8 :=
  v.hb.cells.read v.buf.offset.toNat v.buf.limit.toNat

/-- The contract of all methods, and that of those that do not write. -/
def contract (writes : Bool) : Contract BufferException View where
  inv := View.Valid
  rel := View.Frame writes
  err := fun e => e ≠ .outside
  refl := View.Frame.refl
  trans := View.Frame.trans

namespace View.Valid

variable {v : View}

/-- Another state of the numbers on the same array. -/
theorem numbered
    (h : v.Valid) {b : Buffer} (hb : b.Valid)
    (hcap : b.capacity = v.buf.capacity) :
    Valid (v.withNumbers b) := by
  refine ⟨hb, h.offset_ge, ?_, h.length_lt, h.minimum_ge, h.minimum_lt,
    h.derived, h.readOnly⟩
  show v.buf.offset + b.capacity ≤ _
  rw [hcap]
  exact h.window

/-- Another array of the same length. -/
theorem onArray {hb : Bytes} (h : v.Valid) (hlength : hb.length = v.hb.length) :
    Valid { v with hb := hb } :=
  ⟨h.numbers, h.offset_ge, h.window.trans_eq (by rw [hlength]),
    hlength.trans_lt h.length_lt, h.minimum_ge, h.minimum_lt, h.derived,
    h.readOnly⟩

/-- Whether the array is a new one does not matter. -/
theorem unmarked (h : v.Valid) : Valid { buf := v.buf, hb := v.hb } :=
  ⟨h.numbers, h.offset_ge, h.window, h.length_lt, h.minimum_ge,
    h.minimum_lt, h.derived, h.readOnly⟩

/-- Order and flags do not matter. -/
theorem withFlags
    (h : v.Valid) (order : ByteOrder) (autoExpand autoShrink : Bool) :
    Valid { v with buf := { v.buf with
      order := order, autoExpand := autoExpand, autoShrink := autoShrink } } :=
  ⟨h.numbers, h.offset_ge, h.window, h.length_lt, h.minimum_ge,
    h.minimum_lt, h.derived, h.readOnly⟩

/-- Other bytes in the same array. -/
theorem withCells (h : v.Valid) (cells : Memory UInt8) :
    Valid { v with hb := { v.hb with cells := cells } } :=
  h.onArray rfl

end View.Valid

namespace Op

variable {writes : Bool} {P : View → Prop} {v : View}

section Base

/-- A part of the base class that keeps the numbers in order. -/
theorem keeps_base
    {α : Type} {f : Buffer → Except BufferException (α × Buffer)}
    {Q : α → View → Prop}
    (hok : ∀ v : View, v.Valid → P v → ∀ a b,
      f v.buf.toBuffer = .ok (a, b) →
        b.Valid ∧ b.capacity = v.buf.capacity ∧
          Q a (v.withNumbers b))
    (herr : ∀ b e, f b = .error e → e ≠ .outside) :
    (contract writes).Keeps P (base f) Q := by
  intro s hinv hP
  unfold base
  cases hres : f s.buf.toBuffer with
  | error e =>
      exact .error (herr _ e hres) hinv (View.Frame.refl s)
  | ok r =>
      obtain ⟨hvalid, hcap, hQ⟩ := hok s hinv hP r.1 r.2 hres
      exact .ok (hinv.numbered hvalid hcap)
        (.of_same rfl rfl id rfl hcap rfl rfl) hQ

theorem keeps_baseSet
    {f : Buffer → Except BufferException Buffer} {Q : View → Prop}
    (hok : ∀ v : View, v.Valid → P v → ∀ b, f v.buf.toBuffer = .ok b →
      b.Valid ∧ b.capacity = v.buf.capacity ∧ Q (v.withNumbers b))
    (herr : ∀ b e, f b = .error e → e ≠ .outside) :
    (contract writes).Keeps P (baseSet f) (fun _ => Q) := by
  refine keeps_base ?_ ?_
  · intro v hinv hP a b hres
    cases hf : f v.buf.toBuffer with
    | error e =>
        rw [hf] at hres
        cases hres
    | ok b' =>
        rw [hf] at hres
        cases hres
        exact hok v hinv hP _ hf
  · intro b e hres
    cases hf : f b with
    | error e' =>
        rw [hf] at hres
        cases hres
        exact herr b e hf
    | ok b' =>
        rw [hf] at hres
        cases hres

/-- A check of arguments changes nothing. -/
theorem keeps_check
    {α : Type} {r : Except BufferException α} {Q : α → View → Prop}
    (hok : ∀ a v, r = .ok a → P v → Q a v)
    (herr : ∀ e, r = .error e → e ≠ .outside) :
    (contract writes).Keeps P (check r) Q := by
  intro s hinv hP
  unfold check base
  cases hr : r with
  | error e =>
      exact .error (herr e hr) hinv (View.Frame.refl s)
  | ok a =>
      exact .ok hinv (View.Frame.refl s) (hok a s hr hP)

theorem base_ok
    {α : Type} {f : Buffer → Except BufferException (α × Buffer)} {a : α}
    {b : Buffer} (h : f v.buf.toBuffer = .ok (a, b)) :
    base f v = .ok a (v.withNumbers b) := by
  rw [base, h]

theorem baseSet_ok
    {f : Buffer → Except BufferException Buffer} {b : Buffer}
    (h : f v.buf.toBuffer = .ok b) :
    baseSet f v = .ok () (v.withNumbers b) := by
  apply base_ok
  rw [h]
  rfl

theorem onlyIf_true {p : Prop} [Decidable p] (h : p) (x : Op Unit) :
    onlyIf p x = x :=
  if_pos h

theorem onlyIf_false {p : Prop} [Decidable p] (h : ¬ p) (x : Op Unit) :
    onlyIf p x = pure () :=
  if_neg h

theorem keeps_onlyIf
    {p : Prop} [Decidable p] {x : Op Unit} {Q : View → Prop}
    (h : p → (contract writes).Keeps P x (fun _ => Q))
    (hskip : ∀ s, P s → Q s) :
    (contract writes).Keeps P (onlyIf p x) (fun _ => Q) :=
  Contract.Keeps.ite h (fun _ => .pure () hskip)

theorem total_onlyIf
    {p : Prop} [Decidable p] {x : Op Unit}
    (h : p → (contract writes).Keeps P x (fun _ _ => True)) :
    (contract writes).Keeps P (onlyIf p x) (fun _ _ => True) :=
  keeps_onlyIf h (fun _ _ => trivial)

theorem keeps_drop {α : Type} {x : Op α}
    (h : (contract writes).Total x) : (contract writes).Total x.drop :=
  h.bind (fun _ => .pure _ (fun _ _ => trivial))

theorem setPosition_error
    {value : Int} {b : Buffer} {e : BufferException}
    (h : Buffer.setPosition value b = .error e) : e ≠ .outside := by
  unfold Buffer.setPosition at h
  split_ifs at h
  cases h
  simp

theorem setLimit_error
    {value : Int} {b : Buffer} {e : BufferException}
    (h : Buffer.setLimit value b = .error e) : e ≠ .outside := by
  unfold Buffer.setLimit at h
  split_ifs at h
  cases h
  simp

/-- The position is `p`. -/
def At (p : Int) (v : View) : Prop :=
  v.buf.position = p

/-- Position, byte order and the bytes up to the limit. -/
structure Shows (p : Int) (o : ByteOrder) (xs : List UInt8) (v : View) :
    Prop where
  position : At p v
  order : v.buf.order = o
  shown : v.shown = xs

theorem limit_eq (hv : v.Valid) : v.buf.limit = v.shown.length := by
  obtain ⟨h₁, h₂, h₃, h₄, h₅, h₆⟩ := hv.numbers
  rw [View.shown, Memory.read_length]
  omega

/-- The position is where it is set. -/
theorem keeps_baseSetPosition
    {p : Int} {o : ByteOrder} {xs : List UInt8} (value : Int) :
    (contract writes).Keeps (Shows p o xs)
      (baseSet (Buffer.setPosition value))
      (fun _ s => Shows value o xs s ∧ 0 ≤ value ∧ value ≤ xs.length) := by
  refine keeps_baseSet ?_ (fun _ _ => setPosition_error)
  rintro v hinv ⟨rfl, rfl, rfl⟩ b hset
  refine ⟨hinv.numbers.setPosition hset, ?_⟩
  obtain ⟨hge, hle, rfl⟩ := Buffer.setPosition_eq_ok hset
  rw [limit_eq hinv] at hle
  exact ⟨rfl, ⟨rfl, rfl, rfl⟩, hge, hle⟩

/-- A limit behind the position does not move it. -/
theorem keeps_baseSetLimit
    {p : Int} {o : ByteOrder} {xs : List UInt8} (value : Int) :
    (contract writes).Keeps (Shows p o xs) (baseSet (Buffer.setLimit value))
      (fun _ s => 0 ≤ value ∧ (p ≤ value → At p s) ∧ s.buf.order = o ∧
        (xs.length ≤ value → xs <+: s.shown)) := by
  refine keeps_baseSet ?_ (fun _ _ => setLimit_error)
  rintro v hinv ⟨rfl, rfl, rfl⟩ b hset
  refine ⟨hinv.numbers.setLimit hset, ?_⟩
  have hlimit := limit_eq hinv
  obtain ⟨hge, -, rfl⟩ := Buffer.setLimit_eq_ok hset
  refine ⟨rfl, hge, fun hle => if_neg (not_lt.mpr hle), rfl,
    fun hle => ?_⟩
  obtain ⟨d, hd⟩ : ∃ d : Nat, value.toNat = v.buf.limit.toNat + d :=
    Nat.exists_eq_add_of_le (by omega)
  show v.hb.cells.read _ _ <+: v.hb.cells.read v.buf.offset.toNat value.toNat
  rw [hd, Memory.read_add]
  exact List.prefix_append _ _

theorem keeps_mark : (contract writes).Total mark := by
  refine keeps_baseSet ?_ (fun _ _ h => nomatch h)
  intro v hinv _ b hset
  cases hset
  exact ⟨hinv.numbers.setMark, rfl, trivial⟩

theorem keeps_reset : (contract writes).Total reset := by
  refine keeps_baseSet ?_ ?_
  · intro v hinv _ b hset
    refine ⟨hinv.numbers.reset hset, ?_, trivial⟩
    unfold Buffer.reset at hset
    split_ifs at hset
    cases hset
    rfl
  · intro b e h
    unfold Buffer.reset at h
    split_ifs at h
    cases h
    simp

theorem keeps_clear : (contract writes).Total clear := by
  refine keeps_baseSet ?_ (fun _ _ h => nomatch h)
  intro v hinv _ b hset
  cases hset
  exact ⟨hinv.numbers.clear, rfl, trivial⟩

theorem keeps_flip : (contract writes).Total flip := by
  refine keeps_baseSet ?_ (fun _ _ h => nomatch h)
  intro v hinv _ b hset
  cases hset
  exact ⟨hinv.numbers.flip, rfl, trivial⟩

theorem keeps_rewind : (contract writes).Total rewind := by
  refine keeps_baseSet ?_ (fun _ _ h => nomatch h)
  intro v hinv _ b hset
  cases hset
  exact ⟨hinv.numbers.rewind, rfl, trivial⟩

end Base

section Capacity

/-- An array that is large enough takes the copy. -/
theorem blockCopy_zeros
    {src : Bytes} {off n k : Int} (hoff : 0 ≤ off) (hk : 0 ≤ k)
    (hsrc : off + k ≤ src.length) (hn : k ≤ n) :
    src.blockCopy off (Bytes.zeros n) 0 k =
      some ⟨n.toNat, Memory.store (fun _ => 0) 0
        (src.cells.read off.toNat k.toNat)⟩ := by
  unfold Bytes.blockCopy
  refine if_pos ⟨hoff, le_refl _, hk, hsrc, ?_⟩
  show 0 + k ≤ ((n.toNat : Nat) : Int)
  omega

/-- A buffer on its own moves to a new array. -/
theorem keeps_reallocate
    {newHb : Bytes} {f : ByteBuffer → ByteBuffer}
    (hallowed : v.buf.recapacityAllowed = true)
    (hread : (f v.buf).readOnly = v.buf.readOnly)
    (hderived : (f v.buf).derived = v.buf.derived)
    (hvalid : View.Valid
      { buf := { f v.buf with offset := 0 }, hb := newHb, fresh := true }) :
    (contract writes).Keeps (fun s => s = v) (reallocate (some newHb) f)
      (fun _ s => s =
        { buf := { f v.buf with offset := 0 }, hb := newHb, fresh := true }) := by
  rintro s hinv rfl
  exact .ok hvalid (.of_fresh hinv hallowed hread hderived rfl) rfl

/-- A larger array shows the same bytes. -/
theorem setCapacity_shows
    {value p : Int} {o : ByteOrder} {xs : List UInt8}
    (hlt : value < 2 ^ 31) :
    (contract writes).Keeps (Shows p o xs) (setCapacity value)
      (fun _ => Shows p o xs) := by
  refine Contract.Keeps.get_bind (fun v hinv hshows => ?_)
  obtain ⟨h₁, h₂, h₃, h₄, h₅, h₆⟩ := hinv.numbers
  refine Contract.Keeps.ite (fun _ => .throw nofun) (fun hallowed => ?_)
  refine Contract.Keeps.ite (fun hgt => ?_) (fun _ => .pure () ?_)
  · rw [blockCopy_zeros hinv.offset_ge (by omega) hinv.window (by omega)]
    refine (keeps_reallocate (f := fun buf => { buf with capacity := value })
      (by simpa using hallowed) rfl rfl ?_).weaken (fun _ _ => id) ?_
    · refine ⟨⟨h₁, h₂, h₃, h₄, by dsimp only; omega, hlt⟩, le_refl _, ?_,
        ?_, hinv.minimum_ge, hinv.minimum_lt, hinv.derived, hinv.readOnly⟩
      · dsimp only
        omega
      · dsimp only
        omega
    · rintro _ s - rfl
      refine ⟨hshows.position, hshows.order, ?_⟩
      rw [← hshows.shown, View.shown, View.shown]
      show (Memory.store _ 0 _).read 0 _ = _
      have hle : v.buf.limit.toNat ≤ v.buf.capacity.toNat := by omega
      rw [Memory.read_store _ _ (by rw [Memory.read_length]; exact hle),
        Memory.take_read _ _ hle]
  · rintro s rfl
    exact hshows

theorem keeps_setCapacity {value : Int} (hlt : value < 2 ^ 31) :
    (contract writes).Total (setCapacity value) :=
  .of_each (P := fun (i : Int × ByteOrder × List UInt8) =>
      Shows i.1 i.2.1 i.2.2)
    (fun s => (s.buf.position, s.buf.order, s.shown))
    (fun _ => ⟨rfl, rfl, rfl⟩)
    (fun _ => (setCapacity_shows hlt).forget)

theorem int32_lt (x : Int) : int32 x < 2 ^ 31 := by
  unfold int32
  omega

/-- What was shown is still shown, with more only where `e` asks for it. -/
structure Extends (p : Int) (o : ByteOrder) (xs : List UInt8) (e : Int)
    (v : View) : Prop where
  position : At p v
  order : v.buf.order = o
  starts : xs <+: v.shown
  shown : e ≤ xs.length → v.shown = xs

theorem Shows.extends
    {p : Int} {o : ByteOrder} {xs : List UInt8} (e : Int)
    (h : Shows p o xs v) : Extends p o xs e v :=
  ⟨h.position, h.order, h.shown ▸ List.prefix_refl _, fun _ => h.shown⟩

/-- Expanding moves the limit backwards only, and not the position. -/
theorem expandTo_shows
    {p : Int} {o : ByteOrder} {xs : List UInt8}
    (pos expectedRemaining : Int) (autoExpand : Bool) :
    (contract writes).Keeps (Shows p o xs)
      (expandTo pos expectedRemaining autoExpand)
      (fun _ => Extends p o xs (int32 (pos + expectedRemaining))) := by
  refine Contract.Keeps.get_bind (fun v hinv hshows => ?_)
  refine Contract.Keeps.ite (fun _ => .throw nofun) (fun _ => ?_)
  obtain ⟨h₁, h₂, h₃, h₄, h₅, h₆⟩ := hinv.numbers
  have hnew : (if autoExpand = true then
      normalizeCapacity (int32 (pos + expectedRemaining))
      else int32 (pos + expectedRemaining)) < 2 ^ 31 := by
    split_ifs
    · exact (le_normalizeCapacity (int32_lt _)).2.2
    · exact int32_lt _
  have hset : (contract writes).Keeps (Shows p o xs) (setCapacity _)
      (fun _ => Shows p o xs) := setCapacity_shows hnew
  have hfirst := keeps_onlyIf
    (fun _ : (if autoExpand = true then
      normalizeCapacity (int32 (pos + expectedRemaining))
      else int32 (pos + expectedRemaining)) > v.buf.capacity => hset)
    (fun _ => id)
  have hlimit : v.buf.limit = xs.length := by
    rw [limit_eq hinv, hshows.shown]
  have hpos : p ≤ v.buf.limit := by
    rw [← hshows.position]
    exact h₄
  refine Contract.Keeps.bind (hfirst.weaken ?_ (fun _ _ _ => id))
    (fun _ => keeps_onlyIf (fun hmore => ?_) (fun _ h => h.extends _))
  · rintro s - rfl
    exact hshows
  · refine (keeps_baseSetLimit _).weaken (fun _ _ => id) ?_
    rintro _ s - ⟨-, hat, horder, hstarts⟩
    exact ⟨hat (hpos.trans hmore.le), horder, hstarts (hlimit ▸ hmore.le),
      fun hle => absurd (hlimit ▸ hmore) (not_lt.mpr hle)⟩

theorem keeps_expandTo (pos expectedRemaining : Int) (autoExpand : Bool) :
    (contract writes).Total (expandTo pos expectedRemaining autoExpand) :=
  .of_each (P := fun (i : Int × ByteOrder × List UInt8) =>
      Shows i.1 i.2.1 i.2.2)
    (fun s => (s.buf.position, s.buf.order, s.shown))
    (fun _ => ⟨rfl, rfl, rfl⟩)
    (fun _ => (expandTo_shows pos expectedRemaining autoExpand).forget)

theorem autoExpand0_shows
    {p : Int} {o : ByteOrder} {xs : List UInt8}
    (pos expectedRemaining : Int) :
    (contract writes).Keeps (Shows p o xs)
      (autoExpand0 pos expectedRemaining)
      (fun _ => Extends p o xs (int32 (pos + expectedRemaining))) := by
  refine Contract.Keeps.get_bind (fun v _ hshows => ?_)
  refine keeps_onlyIf (fun _ => ?_) (fun s h => (h ▸ hshows).extends _)
  exact (expandTo_shows pos expectedRemaining true).weaken
    (fun _ _ h => h ▸ hshows) (fun _ _ _ => id)

theorem autoExpand0_at {p : Int} (pos expectedRemaining : Int) :
    (contract writes).Keeps (At p)
      (autoExpand0 pos expectedRemaining) (fun _ => At p) := by
  intro s hinv hat
  exact (autoExpand0_shows pos expectedRemaining s hinv
    ⟨hat, rfl, rfl⟩).weaken (fun _ _ _ _ h => h.position)

theorem keeps_autoExpand0 (pos expectedRemaining : Int) :
    (contract writes).Total (autoExpand0 pos expectedRemaining) :=
  .of_each (P := At) (fun s => s.buf.position) (fun _ => rfl)
    (fun _ => (autoExpand0_at pos expectedRemaining).forget)

theorem keeps_autoExpandHere (expectedRemaining : Int) :
    (contract writes).Total (autoExpandHere expectedRemaining) :=
  Contract.Keeps.get_bind (fun _ _ _ => (keeps_autoExpand0 _ _).total)

theorem keeps_expandAt (position expectedRemaining : Int) :
    (contract writes).Total (expandAt position expectedRemaining) :=
  keeps_expandTo _ _ _

theorem keeps_expand (expectedRemaining : Int) :
    (contract writes).Total (expand expectedRemaining) :=
  Contract.Keeps.get_bind (fun _ _ _ => (keeps_expandTo _ _ _).total)

/-- Setting the position shows the same bytes, expanded or not. -/
theorem setPosition_shows
    {p : Int} {o : ByteOrder} {xs : List UInt8} (value : Int) :
    (contract writes).Keeps (Shows p o xs) (setPosition value)
      (fun _ => Shows value o xs) := by
  refine (keeps_baseSetPosition value).bind (fun _ => ?_)
  rintro s hinv ⟨hshows, hge, hle⟩
  have hlimit := limit_eq hinv
  have hle' := hinv.numbers.limit_le
  have hlt := hinv.numbers.capacity_lt
  rw [hshows.shown] at hlimit
  have hwrap : int32 (value + 0) = value := by
    rw [add_zero]
    exact int32_of_bounds (by omega) (by omega)
  refine (autoExpand0_shows value 0 s hinv hshows).weaken ?_
  intro _ t _ _ hextends
  exact ⟨hextends.position, hextends.order,
    hextends.shown (by rwa [hwrap])⟩

theorem setPosition_at (value : Int) :
    (contract writes).Keeps P (setPosition value) (fun _ => At value) :=
  .of_each (P := fun (i : Int × ByteOrder × List UInt8) =>
      Shows i.1 i.2.1 i.2.2)
    (fun s => (s.buf.position, s.buf.order, s.shown))
    (fun _ => ⟨rfl, rfl, rfl⟩)
    (fun _ => (setPosition_shows value).weaken (fun _ _ => id)
      (fun _ _ _ h => h.position))

/-- A limit is set behind the position, if it is set at all. -/
theorem setLimit_at {p value : Int} (hle : 0 ≤ value → p ≤ value) :
    (contract writes).Keeps (At p) (setLimit value) (fun _ => At p) := by
  intro s hinv hat
  exact (Contract.Keeps.bind (keeps_baseSetLimit value)
    (fun _ => (autoExpand0_at value 0).weaken
      (fun _ _ h => h.2.1 (hle h.1)) (fun _ _ _ => id))) s hinv
    ⟨hat, rfl, rfl⟩

theorem keeps_setPosition (value : Int) :
    (contract writes).Total (setPosition value) :=
  (setPosition_at value).forget

theorem keeps_setLimit (value : Int) :
    (contract writes).Total (setLimit value) :=
  .of_each (P := fun (i : Int × ByteOrder × List UInt8) =>
      Shows i.1 i.2.1 i.2.2)
    (fun s => (s.buf.position, s.buf.order, s.shown))
    (fun _ => ⟨rfl, rfl, rfl⟩)
    (fun _ => (keeps_baseSetLimit value).bind
      (fun _ => (keeps_autoExpand0 _ _).total))

/-- A field changes that no other part of the contract looks at. -/
theorem keeps_modify
    {f : View → View}
    (h : ∀ s, s.Valid → P s → (f s).Valid ∧ View.Frame writes s (f s)) :
    (contract writes).Keeps P (modify f) (fun _ _ => True) :=
  Contract.Keeps.modify (fun s hinv hP =>
    ⟨(h s hinv hP).1, (h s hinv hP).2, trivial⟩)

theorem keeps_setOrder (value : ByteOrder) :
    (contract writes).Total (setOrder value) :=
  keeps_modify (fun _ hinv _ =>
    ⟨hinv.withFlags value _ _, .of_same rfl rfl id rfl rfl rfl rfl⟩)

theorem keeps_setMinimumCapacity {value : Int} (hlt : value < 2 ^ 31) :
    (contract writes).Total (setMinimumCapacity value) :=
  Contract.Keeps.ite (fun _ => .throw nofun) (fun hge =>
    keeps_modify (fun _ hinv _ =>
      ⟨⟨hinv.numbers, hinv.offset_ge, hinv.window, hinv.length_lt,
        not_lt.mp hge, hlt, hinv.derived, hinv.readOnly⟩,
        .of_same rfl rfl id rfl rfl rfl rfl⟩))

theorem keeps_setAutoExpand (value : Bool) :
    (contract writes).Total (setAutoExpand value) :=
  Contract.Keeps.get_bind (fun _ _ _ =>
    Contract.Keeps.ite (fun _ => .throw nofun) (fun _ =>
      keeps_modify (fun _ hinv _ =>
        ⟨hinv.withFlags _ value _, .of_same rfl rfl id rfl rfl rfl rfl⟩)))

theorem keeps_setAutoShrink (value : Bool) :
    (contract writes).Total (setAutoShrink value) :=
  Contract.Keeps.get_bind (fun _ _ _ =>
    Contract.Keeps.ite (fun _ => .throw nofun) (fun _ =>
      keeps_modify (fun _ hinv _ =>
        ⟨hinv.withFlags _ _ value, .of_same rfl rfl id rfl rfl rfl rfl⟩)))

end Capacity

section Bytes

/-- Indices below the limit. -/
def InLimit (p n : Int) (v : View) : Prop :=
  0 ≤ p ∧ p + n ≤ v.buf.limit

/-- Indices of the array that belong to the buffer. -/
def InWindow (i n : Int) (v : View) : Prop :=
  v.buf.offset ≤ i ∧ i + n ≤ v.buf.offset + v.buf.capacity

theorem offset_eq
    (hv : v.Valid) {i : Int} (hge : 0 ≤ i) (hle : i ≤ v.buf.capacity) :
    offset i v = .ok (i + v.buf.offset) v := by
  have hwindow := hv.window
  have hlength := hv.length_lt
  have hoffset := hv.offset_ge
  have hwrap : int32 (i + v.buf.offset) = i + v.buf.offset :=
    int32_of_bounds (by omega) (by omega)
  show EStateM.Result.ok (int32 (i + v.buf.offset)) v = _
  rw [hwrap]

theorem keeps_offset {p n : Int} (hn : 0 ≤ n) :
    (contract writes).Keeps (InLimit p n) (offset p) (fun i => InWindow i n) := by
  rintro s hinv ⟨hge, hle⟩
  have hlimit := hinv.numbers.limit_le
  rw [offset_eq hinv hge (by omega)]
  exact .ok hinv (View.Frame.refl s) ⟨by omega, by omega⟩

theorem nextIndex_error
    {e e' : BufferException} {nb : Int} {b : Buffer} (he : e ≠ .outside)
    (h : Buffer.nextIndex e nb b = .error e') : e' ≠ .outside := by
  unfold Buffer.nextIndex at h
  split_ifs at h
  cases h
  exact he

theorem keeps_nextIndex
    {e : BufferException} (he : e ≠ .outside) {nb : Int} (hnb : 0 ≤ nb) :
    (contract writes).Keeps P (base (Buffer.nextIndex e nb))
      (fun p => InLimit p nb) := by
  refine keeps_base ?_ (fun _ _ => nextIndex_error he)
  intro v hinv _ p b hnext
  have hvalid := hinv.numbers.nextIndex hnb hnext
  obtain ⟨rfl, hroom, rfl⟩ := Buffer.nextIndex_eq_ok hnext
  exact ⟨hvalid, rfl, hinv.numbers.position_ge, hroom⟩

theorem keeps_nextGetIndex {nb : Int} (hnb : 0 ≤ nb) :
    (contract writes).Keeps P (nextGetIndex nb) (fun p => InLimit p nb) :=
  keeps_nextIndex (e := .bufferUnderflow) nofun hnb

theorem keeps_nextPutIndex {nb : Int} (hnb : 0 ≤ nb) :
    (contract writes).Keeps P (nextPutIndex nb) (fun p => InLimit p nb) :=
  keeps_nextIndex (e := .overflow) nofun hnb

theorem keeps_checkIndex (i nb : Int) :
    (contract writes).Keeps P (checkIndex i nb) (fun p => InLimit p nb) := by
  refine keeps_base ?_ ?_
  · intro v hinv _ p b hres
    cases hcheck : Buffer.checkIndex i nb v.buf.toBuffer with
    | error e =>
        rw [hcheck] at hres
        cases hres
    | ok j =>
        rw [hcheck] at hres
        cases hres
        obtain ⟨rfl, hge, hle⟩ := Buffer.checkIndex_eq_ok hcheck
        exact ⟨hinv.numbers, rfl, hge, hle⟩
  · intro b e hres
    unfold Buffer.checkIndex at hres
    split_ifs at hres
    · cases hres
      simp
    · cases hres

theorem InWindow.bounds
    (hv : v.Valid) {i n : Int} (h : InWindow i n v) :
    0 ≤ i ∧ i + n ≤ v.hb.length := by
  have hwindow := hv.window
  have hoffset := hv.offset_ge
  obtain ⟨hge, hle⟩ := h
  omega

theorem keeps_getInternal (i : Int) (w : Nat) :
    (contract writes).Keeps (InWindow i (w + 1)) (getInternal i)
      (fun _ => InWindow (i + 1) w) := by
  refine Contract.Keeps.get_bind (fun v hinv hwindow => ?_)
  obtain ⟨hge, hle⟩ := hwindow.bounds hinv
  refine Contract.Keeps.ite (fun _ => .pure _ ?_) (fun hout => ?_)
  · rintro s rfl
    obtain ⟨h₁, h₂⟩ := hwindow
    exact ⟨by omega, by omega⟩
  · exact absurd ⟨hge, by omega⟩ hout

/-- A byte within the window is all that changes. -/
theorem keeps_store
    {i : Int} {bs : List UInt8} (hread : v.buf.readOnly = false)
    (hwindow : InWindow i bs.length v) :
    (contract true).Keeps (fun s => s = v)
      (modify (fun v => { v with
        hb := { v.hb with cells := v.hb.cells.store i.toNat bs } }))
      (fun _ s => s.buf = v.buf) := by
  refine Contract.Keeps.modify ?_
  rintro s hinv rfl
  have hoffset := hinv.offset_ge
  obtain ⟨hge, hle⟩ := hwindow
  refine ⟨hinv.withCells _,
    ⟨rfl, rfl, fun h => ⟨h, rfl, rfl, rfl, rfl⟩, ?_, ?_, nofun⟩, rfl⟩
  · intro h
    refine ⟨h, rfl, rfl, rfl, ?_⟩
    intro j hj
    show Memory.store s.hb.cells i.toNat bs j = _
    unfold Memory.store
    split_ifs with hlow
    · rfl
    · rw [List.getElem?_eq_none (by omega), Option.getD_none]
  · intro h
    rw [hread] at h
    cases h

theorem keeps_putInternal (i : Int) (b : UInt8) (w : Nat) :
    (contract true).Keeps (InWindow i (w + 1)) (putInternal i b)
      (fun _ => InWindow (i + 1) w) := by
  refine Contract.Keeps.get_bind (fun v hinv hwindow => ?_)
  obtain ⟨hge, hle⟩ := hwindow.bounds hinv
  refine Contract.Keeps.ite (fun _ => .throw nofun) (fun hread => ?_)
  refine Contract.Keeps.ite (fun _ => ?_) (fun hout => ?_)
  · obtain ⟨h₁, h₂⟩ := hwindow
    refine (@keeps_store v i [b] (by simpa using hread)
      ⟨h₁, ?_⟩).weaken (fun _ _ => id) ?_
    · simp only [List.length_singleton, Nat.cast_one]
      omega
    · intro _ s _ hbuf
      refine ⟨?_, ?_⟩
      · rw [hbuf]
        omega
      · rw [hbuf]
        omega
  · exact absurd ⟨hge, by omega⟩ hout

theorem keeps_getInternals (i : Int) (w : Nat) :
    (contract writes).Keeps (InWindow i w) (getInternals i w) (fun _ _ => True) := by
  induction w generalizing i with
  | zero =>
      exact .pure _ (fun _ _ => trivial)
  | succ w ih =>
      refine Contract.Keeps.bind (keeps_getInternal i w) (fun b => ?_)
      exact (ih (i + 1)).bind (fun _ => .pure _ (fun _ _ => trivial))

theorem keeps_putInternals (i : Int) (bs : List UInt8) :
    (contract true).Keeps (InWindow i bs.length) (putInternals i bs)
      (fun _ _ => True) := by
  induction bs generalizing i with
  | nil =>
      exact .pure _ (fun _ _ => trivial)
  | cons b bs ih =>
      exact Contract.Keeps.bind (keeps_putInternal i b bs.length)
        (fun _ => ih (i + 1))

theorem keeps_get : (contract writes).Total get :=
  (keeps_nextGetIndex Int.one_nonneg).bind (fun _ =>
    (keeps_offset Int.one_nonneg).bind (fun i =>
      (keeps_getInternal i 0).forget))

theorem keeps_getAt (index : Int) : (contract writes).Total (getAt index) :=
  (keeps_checkIndex index 1).bind (fun _ =>
    (keeps_offset Int.one_nonneg).bind (fun i =>
      (keeps_getInternal i 0).forget))

/-- A byte that `Get(i)` returns is the one of its index. -/
theorem getAt_eq_ok
    {v w : View} (hv : v.Valid) {i : Int} {b : UInt8}
    (hget : getAt i v = .ok b w) :
    0 ≤ i ∧ i < v.buf.limit ∧ b = v.hb.cells (i + v.buf.offset).toNat := by
  cases hcheck : Buffer.checkIndex i 1 v.buf.toBuffer with
  | error e =>
      have hthrow : checkIndex i 1 v = .error e v := by
        rw [checkIndex, base, hcheck]
        rfl
      rw [getAt, Fallible.bind_error hthrow] at hget
      cases hget
  | ok j =>
      have hpass : checkIndex i 1 v = .ok j v := by
        rw [checkIndex, base, hcheck]
        rfl
      obtain ⟨rfl, hge, hle⟩ := Buffer.checkIndex_eq_ok hcheck
      have hcap := hv.numbers.limit_le
      have hwindow := hv.window
      have hoffset := hv.offset_ge
      rw [getAt, Fallible.bind_ok hpass,
        Fallible.bind_ok (offset_eq hv hge (by omega)), getInternal,
        Fallible.get_bind, if_pos ⟨by omega, by omega⟩] at hget
      cases hget
      exact ⟨hge, by omega, rfl⟩

theorem keeps_put (b : UInt8) : (contract true).Total (put b) :=
  (keeps_autoExpandHere 1).bind (fun _ =>
    (keeps_nextPutIndex Int.one_nonneg).bind (fun _ =>
      (keeps_offset Int.one_nonneg).bind (fun i =>
        (keeps_putInternal i b 0).forget)))

theorem keeps_putAt (i : Int) (b : UInt8) : (contract true).Total (putAt i b) :=
  (keeps_autoExpand0 i 1).bind (fun _ =>
    (keeps_checkIndex i 1).bind (fun _ =>
      (keeps_offset Int.one_nonneg).bind (fun j =>
        (keeps_putInternal j b 0).forget)))

theorem bytesOf_length (order : ByteOrder) (w : Nat) (x : BitVec (8 * w)) :
    (bytesOf order w x).length = w := by
  cases order with
  | BigEndian =>
      rw [bytesOf, List.length_reverse, leBytes_length]
  | LittleEndian =>
      rw [bytesOf, leBytes_length]

/-- What `Get…` does once it has an index. -/
theorem keeps_wordAt (w : Nat) (i : Int) :
    (contract writes).Keeps (InWindow i w)
      (do
        let bs ← getInternals i w
        let v ← view
        pure (wordOf v.buf.order w bs))
      (fun _ _ => True) :=
  (keeps_getInternals i w).bind (fun _ =>
    Contract.Keeps.get_bind (fun _ _ _ =>
      .pure _ (fun _ _ => trivial)))

/-- What `Put…` does once it has an index. -/
theorem keeps_putWordHere (w : Nat) (i : Int) (value : BitVec (8 * w)) :
    (contract true).Keeps (InWindow i w)
      (do
        let v ← view
        putInternals i (bytesOf v.buf.order w value))
      (fun _ _ => True) := by
  refine Contract.Keeps.get_bind (fun v _ hwindow => ?_)
  refine (keeps_putInternals i _).weaken ?_ (fun _ _ _ _ => trivial)
  rintro s _ rfl
  rwa [bytesOf_length]

theorem keeps_getWord (w : Nat) : (contract writes).Total (getWord w) :=
  (keeps_nextGetIndex (Int.natCast_nonneg w)).bind (fun _ =>
    (keeps_offset (Int.natCast_nonneg w)).bind (fun i =>
      keeps_wordAt w i))

theorem keeps_getWordAt (w : Nat) (index : Int) :
    (contract writes).Total (getWordAt w index) :=
  (keeps_checkIndex index w).bind (fun _ =>
    (keeps_offset (Int.natCast_nonneg w)).bind (fun i =>
      keeps_wordAt w i))

theorem keeps_putWord (w : Nat) (value : BitVec (8 * w)) :
    (contract true).Total (putWord w value) :=
  (keeps_autoExpandHere w).bind (fun _ =>
    (keeps_nextPutIndex (Int.natCast_nonneg w)).bind (fun _ =>
      (keeps_offset (Int.natCast_nonneg w)).bind (fun i =>
        keeps_putWordHere w i value)))

theorem keeps_putWordAt
    (w : Nat) (index : Int) (value : BitVec (8 * w)) :
    (contract true).Total (putWordAt w index value) :=
  (keeps_autoExpand0 index w).bind (fun _ =>
    (keeps_checkIndex index w).bind (fun _ =>
      (keeps_offset (Int.natCast_nonneg w)).bind (fun i =>
        keeps_putWordHere w i value)))

end Bytes

section Blocks

theorem blockCopy_eq
    {src dst : Bytes} {srcOff dstOff n : Int} (hsrc : 0 ≤ srcOff)
    (hdst : 0 ≤ dstOff) (hn : 0 ≤ n) (hsrc' : srcOff + n ≤ src.length)
    (hdst' : dstOff + n ≤ dst.length) :
    src.blockCopy srcOff dst dstOff n =
      some { dst with
        cells := dst.cells.store dstOff.toNat
          (src.cells.read srcOff.toNat n.toNat) } :=
  if_pos ⟨hsrc, hdst, hn, hsrc', hdst'⟩

theorem checkBounds_error
    {off len size : Int} {e : BufferException}
    (h : Buffer.checkBounds off len size = .error e) : e ≠ .outside := by
  unfold Buffer.checkBounds at h
  split_ifs at h
  cases h
  simp

/-- A range of an array, checked. -/
theorem keeps_checkBounds
    {off len : Int} {size : Nat} (hoff : off < 2 ^ 31)
    (hlen : len < 2 ^ 31) (hsize : size < 2 ^ 31) :
    (contract writes).Keeps P (check (Buffer.checkBounds off len size))
      (fun _ _ => 0 ≤ off ∧ 0 ≤ len ∧ off + len ≤ size) := by
  refine keeps_check ?_ (fun _ => checkBounds_error)
  rintro ⟨⟩ v hok _
  exact (Buffer.checkBounds_eq_ok hoff hlen (by omega) (by omega)).mp hok

theorem keeps_getArray
    {dst : Bytes} {off length : Int} (hoff : off < 2 ^ 31)
    (hlen : length < 2 ^ 31) (hsize : dst.length < 2 ^ 31) :
    (contract writes).Total (getArray dst off length) := by
  refine (keeps_checkBounds hoff hlen hsize).bind (fun _ => ?_)
  refine Contract.Keeps.get_bind (fun v hinv hbounds => ?_)
  obtain ⟨hge, hge', hle⟩ := hbounds
  obtain ⟨h₁, h₂, h₃, h₄, h₅, h₆⟩ := hinv.numbers
  refine Contract.Keeps.ite (fun _ => .throw nofun) (fun hroom => ?_)
  have hroom' : length ≤ v.buf.limit - v.buf.position := not_lt.mp hroom
  refine Contract.Keeps.known_bind (offset_eq hinv h₃ (by omega)) ?_
  have hwindow := hinv.window
  have hoffset := hinv.offset_ge
  rw [blockCopy_eq (by omega) hge hge' (by omega) hle]
  exact (keeps_setPosition _).total.bind (fun _ =>
    .pure _ (fun _ _ => trivial))

/-- A block that fits between position and limit. -/
theorem keeps_putBlock
    {src : Bytes} {off length : Int} (hread : v.buf.readOnly = false)
    (hge : 0 ≤ off) (hge' : 0 ≤ length) (hle : off + length ≤ src.length)
    (hroom : length ≤ v.buf.remaining) :
    (contract true).Keeps (fun s => s = v) (putBlock src off length)
      (fun _ _ => True) := by
  refine Contract.Keeps.get_bind (fun w hinv heq => ?_)
  subst heq
  obtain ⟨h₁, h₂, h₃, h₄, h₅, h₆⟩ := hinv.numbers
  have hroom' : length ≤ w.buf.limit - w.buf.position := hroom
  refine Contract.Keeps.known_bind (offset_eq hinv h₃ (by omega)) ?_
  have hwindow := hinv.window
  have hoffset := hinv.offset_ge
  rw [blockCopy_eq hge (by omega) hge' hle (by omega)]
  have hstore := @keeps_store w (w.buf.position + w.buf.offset)
    (src.cells.read off.toNat length.toNat) hread
    ⟨by omega, by rw [Memory.read_length]; omega⟩
  intro s hs heq
  subst heq
  exact hstore.bind (fun _ => (keeps_setPosition _).total) s hs rfl

theorem keeps_putArray
    {src : Bytes} {off length : Int} (hoff : off < 2 ^ 31)
    (hlen : length < 2 ^ 31) (hsize : src.length < 2 ^ 31) :
    (contract true).Total (putArray src off length) := by
  have hcheck : (contract true).Keeps (fun _ => True)
      (check (Buffer.checkBounds off length src.length))
      (fun _ _ => 0 ≤ off ∧ 0 ≤ length ∧ off + length ≤ src.length) :=
    keeps_checkBounds hoff hlen hsize
  intro s hs hP
  by_cases hbounds : 0 ≤ off ∧ 0 ≤ length ∧ off + length ≤ src.length
  · refine hcheck.bind (fun _ => ?_) s hs hP
    refine (keeps_autoExpandHere length).total.bind (fun _ => ?_)
    refine Contract.Keeps.get_bind (fun v hinv _ => ?_)
    refine Contract.Keeps.ite (fun _ => .throw nofun) (fun hroom => ?_)
    refine Contract.Keeps.ite (fun _ => .throw nofun) (fun hread => ?_)
    exact keeps_putBlock (by simpa using hread) hbounds.1 hbounds.2.1
      hbounds.2.2 (not_lt.mp hroom)
  · exact hcheck.bind (fun _ t _ h => absurd h hbounds) s hs hP

theorem keeps_skip (size : Int) : (contract writes).Total (skip size) :=
  (keeps_autoExpandHere size).bind (fun _ =>
    Contract.Keeps.get_bind (fun _ _ _ => (keeps_setPosition _).total))

end Blocks

section Filling

theorem keeps_putLongs (value : BitVec 64) (n : Nat) :
    (contract true).Total (putLongs value n) := by
  induction n with
  | zero =>
      exact .pure _ (fun _ _ => trivial)
  | succ n ih =>
      exact (keeps_putWord 8 value).bind (fun _ => ih)

theorem keeps_fillWith
    (long : BitVec 64) (int : BitVec 32) (short : BitVec 16)
    (byte : UInt8) (size : Int) :
    (contract true).Total (fillWith long int short byte size) :=
  (keeps_autoExpandHere size).bind (fun _ =>
    (keeps_putLongs long _).bind (fun _ =>
      (total_onlyIf (fun _ => (keeps_putWord 4 int).total)).bind (fun _ =>
        (total_onlyIf (fun _ => (keeps_putWord 2 short).total)).bind
          (fun _ => total_onlyIf (fun _ => (keeps_put byte).total)))))

theorem keeps_fill (size : Int) : (contract true).Total (fill size) :=
  Contract.Keeps.get_bind (fun _ _ _ =>
    Contract.Keeps.ite (fun _ => .throw nofun)
      (fun _ => (keeps_fillWith _ _ _ _ _).total))

theorem keeps_fillValue (value : UInt8) (size : Int) :
    (contract true).Total (fillValue value size) :=
  Contract.Keeps.get_bind (fun _ _ _ =>
    Contract.Keeps.ite (fun _ => .throw nofun)
      (fun _ => (keeps_fillWith _ _ _ _ _).total))

theorem keeps_andReset {fill : Op Unit} (h : (contract true).Total fill)
    (size : Int) :
    (contract true).Total (andReset fill size) :=
  (keeps_autoExpandHere size).bind (fun _ =>
    Contract.Keeps.get_bind (fun _ _ _ =>
      h.total.tryFinally (keeps_setPosition _)))

theorem keeps_fillAndReset (size : Int) :
    (contract true).Total (fillAndReset size) :=
  keeps_andReset (keeps_fill size) size

theorem keeps_fillValueAndReset (value : UInt8) (size : Int) :
    (contract true).Total (fillValueAndReset value size) :=
  keeps_andReset (keeps_fillValue value size) size

theorem keeps_sweep : (contract true).Total sweep :=
  keeps_clear.bind (fun _ =>
    Contract.Keeps.get_bind (fun _ _ _ => (keeps_fillAndReset _).total))

theorem keeps_sweepValue (value : UInt8) :
    (contract true).Total (sweepValue value) :=
  keeps_clear.bind (fun _ =>
    Contract.Keeps.get_bind (fun _ _ _ =>
      (keeps_fillValueAndReset _ _).total))

end Filling

section Shrinking

/-- Nothing is expanded for a position that is there. -/
theorem autoExpand0_of_fits
    {pos n : Int} (hcap : normalizeCapacity (int32 (pos + n)) ≤ v.buf.capacity)
    (hlimit : int32 (pos + n) ≤ v.buf.limit) :
    autoExpand0 pos n v = .ok () v := by
  rw [autoExpand0, Fallible.get_bind]
  by_cases hauto : v.buf.autoExpand = true ∧ v.buf.recapacityAllowed = true
  · rw [onlyIf_true hauto, expandTo, Fallible.get_bind,
      if_neg (by simp [hauto.2]), if_pos rfl, onlyIf_false (not_lt.mpr hcap),
      onlyIf_false (not_lt.mpr hlimit)]
    rfl
  · rw [onlyIf_false hauto]
    rfl

theorem shrinkLoop_bounds
    {m c d : Int} (fuel : Nat) (hc : 0 ≤ c)
    (h : shrinkLoop m fuel c = some d) : 0 ≤ d ∧ d ≤ c := by
  induction fuel generalizing c with
  | zero =>
      cases h
  | succ fuel ih =>
      rw [shrinkLoop] at h
      split_ifs at h
      · cases h
        exact ⟨hc, le_refl _⟩
      · cases h
        omega
      · have hrec := ih (by omega) h
        omega

theorem compactLoop_bounds
    {m c d : Int} (fuel : Nat) (hc : 0 ≤ c)
    (h : compactLoop m fuel c = some d) : 0 ≤ d ∧ d ≤ c := by
  induction fuel generalizing c with
  | zero =>
      cases h
  | succ fuel ih =>
      rw [compactLoop] at h
      split_ifs at h
      · cases h
        exact ⟨hc, le_refl _⟩
      · have hrec := ih (by omega) h
        omega

theorem keeps_shrink : (contract writes).Total shrink := by
  refine Contract.Keeps.get_bind (fun v hinv _ => ?_)
  obtain ⟨h₁, h₂, h₃, h₄, h₅, h₆⟩ := hinv.numbers
  refine Contract.Keeps.ite (fun _ => .throw nofun) (fun hallowed => ?_)
  refine Contract.Keeps.ite (fun _ => .pure _ (fun _ _ => trivial))
    (fun _ => ?_)
  have hwindow := hinv.window
  have hmin := hinv.minimum_ge
  have hmin' := hinv.minimum_lt
  dsimp only
  cases hloop : shrinkLoop (max v.buf.minimumCapacity v.buf.limit) 32
      v.buf.capacity with
  | none =>
      exact Contract.Keeps.throw (e := BufferException.hangs) nofun
  | some capacity =>
      obtain ⟨hge, hle⟩ := shrinkLoop_bounds 32 (by omega) hloop
      refine Contract.Keeps.ite (fun _ => .pure _ (fun _ _ => trivial))
        (fun _ => ?_)
      rw [blockCopy_zeros hinv.offset_ge (by omega) (by omega) (by omega)]
      refine (keeps_reallocate (f := fun buf =>
        { buf with mark := -1, capacity := max _ capacity })
        (by simpa using hallowed) rfl rfl ?_).forget
      refine ⟨⟨le_refl _, by dsimp only; omega, h₃, h₄, ?_, ?_⟩,
        le_refl _, ?_, ?_, hmin, hmin', hinv.derived, hinv.readOnly⟩
      · dsimp only
        omega
      · dsimp only
        omega
      · dsimp only
        omega
      · dsimp only
        omega

/-- The numbers after `Position = Remaining; Limit = Capacity`. -/
def compacted (b : Buffer) : Buffer :=
  { b with
    position := b.remaining
    limit := b.capacity
    mark := if b.mark > b.remaining then -1 else b.mark }

/-- `Position = Remaining; Limit = Capacity`, where nothing expands first. -/
theorem compactEnd_eq
    (hge : 0 ≤ v.buf.remaining) (hle : v.buf.remaining ≤ v.buf.limit)
    (hcap : v.buf.remaining ≤ v.buf.capacity)
    (hlt : v.buf.remaining < 2 ^ 31)
    (hfits : normalizeCapacity v.buf.remaining ≤ v.buf.capacity) :
    compactEnd v = autoExpand0 v.buf.capacity 0
      (v.withNumbers (compacted v.buf.toBuffer)) := by
  have hwrap : int32 (v.buf.remaining + 0) = v.buf.remaining := by
    rw [add_zero]
    exact int32_of_bounds (by omega) hlt
  obtain ⟨w, hw⟩ : ∃ w, w = v.withNumbers { v.buf.toBuffer with
      position := v.buf.remaining
      mark := if v.buf.mark > v.buf.remaining then -1 else v.buf.mark } :=
    ⟨_, rfl⟩
  have hposition : setPosition v.buf.remaining v = .ok () w := by
    rw [setPosition, Fallible.bind_ok
      (baseSet_ok (Buffer.setPosition_of_le hge hle)), ← hw]
    apply autoExpand0_of_fits
    · rw [hwrap, hw]
      exact hfits
    · rw [hwrap, hw]
      exact hle
  have hlimit : baseSet (Buffer.setLimit w.buf.capacity) w =
      .ok () (v.withNumbers (compacted v.buf.toBuffer)) := by
    have hset := @Buffer.setLimit_of_le w.buf.toBuffer w.buf.capacity
      (by rw [hw]; exact hge.trans hcap) (le_refl _)
    have hpos : ¬ v.buf.remaining > v.buf.capacity := not_lt.mpr hcap
    have hmark : ¬ (if v.buf.mark > v.buf.remaining then (-1 : Int)
        else v.buf.mark) > v.buf.capacity := by
      split_ifs
      · omega
      · omega
    have hnumbers : { w.buf.toBuffer with
        limit := w.buf.capacity
        position := if w.buf.position > w.buf.capacity
          then w.buf.capacity else w.buf.position
        mark := if w.buf.mark > w.buf.capacity then -1
          else w.buf.mark } = compacted v.buf.toBuffer := by
      subst hw
      show Buffer.mk _ _ _ _ = Buffer.mk _ _ _ _
      congr 1
      · exact if_neg hmark
      · exact if_neg hpos
    rw [baseSet_ok hset, hnumbers, hw]
    rfl
  have hcapacity : w.buf.capacity = v.buf.capacity := by
    rw [hw]
    rfl
  rw [compactEnd, Fallible.get_bind, Fallible.bind_ok hposition,
    Fallible.get_bind, setLimit, Fallible.bind_ok hlimit, hcapacity]

theorem keeps_compactEnd : (contract writes).Total compactEnd :=
  Contract.Keeps.get_bind (fun _ _ _ =>
    (keeps_setPosition _).total.bind (fun _ =>
      Contract.Keeps.get_bind (fun _ _ _ => (keeps_setLimit _).total)))

theorem keeps_compactMove :
    (contract true).Keeps (fun s => s = v ∧ v.buf.readOnly = false)
      (compactMove v) (fun _ _ => True) := by
  rintro s hinv ⟨rfl, hread⟩
  obtain ⟨h₁, h₂, h₃, h₄, h₅, h₆⟩ := hinv.numbers
  have hwindow := hinv.window
  have hoffset := hinv.offset_ge
  have hlength := hinv.length_lt
  have hfrom : int32 (s.buf.position + s.buf.offset) =
      s.buf.position + s.buf.offset :=
    int32_of_bounds (by omega) (by omega)
  have hto : int32 (0 + s.buf.offset) = s.buf.offset := by
    rw [zero_add]
    exact int32_of_bounds (by omega) (by omega)
  have hrem : s.buf.remaining = s.buf.limit - s.buf.position := rfl
  unfold compactMove
  rw [hfrom, hto, blockCopy_eq (by omega) hoffset (by omega) (by omega)
    (by omega)]
  have hstore := @keeps_store s s.buf.offset
    (s.hb.cells.read (s.buf.position + s.buf.offset).toNat
      s.buf.remaining.toNat) hread
    ⟨le_refl _, by rw [Memory.read_length]; omega⟩
  exact hstore.bind (fun _ => keeps_compactEnd.total) s hinv rfl

/-- The new array of `Compact`, with the bytes that remain. -/
def reallocated (v : View) (n : Int) : View where
  buf := { v.buf with capacity := n, offset := 0 }
  hb := ⟨n.toNat, Memory.store (fun _ => 0) 0
    (v.hb.cells.read (v.buf.position + v.buf.offset).toNat
      v.buf.remaining.toNat)⟩
  fresh := true

/-- The buffer on its new array. -/
def shrunk (v : View) (n : Int) : View :=
  (reallocated v n).withNumbers (compacted (reallocated v n).buf.toBuffer)

theorem shrunk_valid
    (hv : v.Valid) {n : Int} (hn : v.buf.remaining ≤ n) (hlt : n < 2 ^ 31) :
    (shrunk v n).Valid := by
  obtain ⟨h₁, h₂, h₃, h₄, h₅, h₆⟩ := hv.numbers
  have hrem : v.buf.remaining = v.buf.limit - v.buf.position := rfl
  refine ⟨⟨?_, ?_, ?_, hn, le_refl _, hlt⟩, le_refl _, ?_, ?_,
    hv.minimum_ge, hv.minimum_lt, hv.derived, hv.readOnly⟩
  · show -1 ≤ if v.buf.mark > v.buf.remaining then -1 else v.buf.mark
    split_ifs
    · exact le_refl _
    · exact h₁
  · show (if v.buf.mark > v.buf.remaining then -1 else v.buf.mark) ≤
      v.buf.remaining
    split_ifs
    · omega
    · omega
  · show 0 ≤ v.buf.remaining
    omega
  · show 0 + n ≤ ((n.toNat : Nat) : Int)
    omega
  · show n.toNat < 2 ^ 31
    omega

/-- The capacity that `Compact` shrinks to holds twice what remains. -/
theorem compactShrink_eq
    (hv : v.Valid) (hfew : v.buf.remaining ≤ v.buf.capacity / 4)
    {c n : Int}
    (hloop : compactLoop (max v.buf.minimumCapacity (2 * v.buf.remaining)) 32
      v.buf.capacity = some c)
    (hn : n = max (max v.buf.minimumCapacity (2 * v.buf.remaining)) c) :
    compactShrink v v =
      if n = v.buf.capacity then .ok () v
      else autoExpand0 n 0 (shrunk v n) := by
  obtain ⟨h₁, h₂, h₃, h₄, h₅, h₆⟩ := hv.numbers
  have hwindow := hv.window
  have hoffset := hv.offset_ge
  have hlength := hv.length_lt
  have hmin := hv.minimum_ge
  have hrem : v.buf.remaining = v.buf.limit - v.buf.position := rfl
  have hdouble : int32 (2 * v.buf.remaining) = 2 * v.buf.remaining :=
    int32_of_bounds (by omega) (by omega)
  have hfrom : int32 (v.buf.position + v.buf.offset) =
      v.buf.position + v.buf.offset :=
    int32_of_bounds (by omega) (by omega)
  -- between the two parts the limit may be beyond the capacity
  have hfits : normalizeCapacity v.buf.remaining ≤ n := by
    by_cases hzero : v.buf.remaining = 0
    · rw [hzero, normalizeCapacity_zero]
      omega
    · obtain ⟨k, -, heq, -, hlt⟩ := normalizeCapacity_of_le
        (r := v.buf.remaining) (by omega) (by omega)
      rw [heq]
      omega
  unfold compactShrink
  dsimp only
  rw [hdouble, hloop]
  dsimp only
  rw [← hn]
  split_ifs with hsame hmore
  · rfl
  · omega
  · have hend := compactEnd_eq (v := reallocated v n)
      (show 0 ≤ v.buf.remaining by omega)
      (show v.buf.remaining ≤ v.buf.limit by omega)
      (show v.buf.remaining ≤ n by omega)
      (show v.buf.remaining < 2 ^ 31 by omega) hfits
    rw [hfrom, blockCopy_zeros (by omega) (by omega) (by omega) (by omega)]
    exact hend

theorem keeps_compactShrink
    (hallowed : v.buf.recapacityAllowed = true)
    (hfew : v.buf.remaining ≤ v.buf.capacity / 4) :
    (contract writes).Keeps (fun s => s = v) (compactShrink v)
      (fun _ _ => True) := by
  rintro s hinv rfl
  obtain ⟨h₁, h₂, h₃, h₄, h₅, h₆⟩ := hinv.numbers
  have hmin := hinv.minimum_ge
  have hmin' := hinv.minimum_lt
  have hrem : s.buf.remaining = s.buf.limit - s.buf.position := rfl
  have hdouble : int32 (2 * s.buf.remaining) = 2 * s.buf.remaining :=
    int32_of_bounds (by omega) (by omega)
  cases hloop : compactLoop
      (max s.buf.minimumCapacity (2 * s.buf.remaining)) 32
      s.buf.capacity with
  | none =>
      unfold compactShrink
      dsimp only
      rw [hdouble, hloop]
      exact .error nofun hinv (View.Frame.refl s)
  | some c =>
      obtain ⟨hge, hle⟩ := compactLoop_bounds 32 (by omega) hloop
      rw [compactShrink_eq hinv hfew hloop rfl]
      split_ifs with hsame
      · exact .ok hinv (View.Frame.refl s) trivial
      · have hvalid := shrunk_valid hinv
          (n := max (max s.buf.minimumCapacity (2 * s.buf.remaining)) c)
          (by omega) (by omega)
        have hframe := @View.Frame.of_fresh writes s (shrunk s
          (max (max s.buf.minimumCapacity (2 * s.buf.remaining)) c))
          hinv hallowed rfl rfl rfl
        exact Contract.Ends.bind hframe
          (keeps_autoExpand0 _ _ _ hvalid trivial)

theorem keeps_compact : (contract true).Total compact := by
  refine Contract.Keeps.get_bind (fun v _ _ => ?_)
  refine Contract.Keeps.ite (fun _ => .throw nofun) (fun hread => ?_)
  refine Contract.Keeps.ite (fun _ => .pure _ (fun _ _ => trivial))
    (fun _ => ?_)
  refine Contract.Keeps.ite (fun hshrink => ?_) (fun _ => ?_)
  · exact keeps_compactShrink hshrink.1.2 hshrink.2.1
  · exact keeps_compactMove.weaken
      (fun _ _ h => ⟨h, by simpa using hread⟩) (fun _ _ _ _ => trivial)

end Shrinking

section Deriving

/--
A buffer that was derived from another one, `k` bytes into its window, and is
still within it.
-/
structure IsChild (k : Int) (v : View) (child : ByteBuffer) : Prop where
  numbers : child.toBuffer.Valid
  derived : child.derived = true
  pinned : child.recapacityAllowed = false
  readOnly : v.buf.readOnly = true → child.readOnly = true
  start_ge : 0 ≤ k
  offset_eq : child.offset = k + v.buf.offset
  window_le : child.offset + child.capacity ≤
    v.buf.offset + v.buf.capacity
  minimum_ge : 0 ≤ child.minimumCapacity
  minimum_lt : child.minimumCapacity < 2 ^ 31
  parent : v.buf.recapacityAllowed = false

theorem IsChild.frame
    {k : Int} {v' : View} {child : ByteBuffer} (h : IsChild k v child)
    (hframe : View.Frame writes v v') : IsChild k v' child := by
  obtain ⟨hpin, -, hoff, hcap, -⟩ := hframe.pinned h.parent
  refine ⟨h.numbers, h.derived, h.pinned, ?_, h.start_ge, ?_, ?_,
    h.minimum_ge, h.minimum_lt, hpin⟩
  · rw [hframe.readOnly]
    exact h.readOnly
  · rw [hoff]
    exact h.offset_eq
  · rw [hoff, hcap]
    exact h.window_le

theorem make_error
    {mark pos lim cap : Int} {e : BufferException}
    (h : Buffer.make mark pos lim cap = .error e) : e ≠ .outside := by
  unfold Buffer.make at h
  split_ifs at h with hneg
  · cases h
    simp
  · cases hlim : Buffer.setLimit lim ⟨-1, 0, 0, cap⟩ with
    | error e' =>
        rw [hlim] at h
        cases h
        exact setLimit_error hlim
    | ok b =>
        rw [hlim] at h
        change (Buffer.setPosition pos b).bind _ = _ at h
        cases hpos : Buffer.setPosition pos b with
        | error e' =>
            rw [hpos] at h
            cases h
            exact setPosition_error hpos
        | ok b' =>
            rw [hpos] at h
            change Buffer.checkMark mark pos b' = _ at h
            unfold Buffer.checkMark at h
            split_ifs at h
            cases h
            simp

/-- A window within that of the parent, which may expand no longer. -/
theorem keeps_derive
    {readOnly : Bool} {mark pos lim cap k : Int}
    (hread : v.buf.readOnly = true → readOnly = true)
    (hpin : v.buf.recapacityAllowed = false)
    (hcap : cap < 2 ^ 31) (hk : 0 ≤ k)
    (hend : k + cap ≤ v.buf.capacity) :
    (contract writes).Keeps (fun s => s = v)
      (derive readOnly v.buf mark pos lim cap (k + v.buf.offset))
      (fun child s => IsChild k s child) := by
  rintro s hinv rfl
  refine keeps_check (P := fun t => t = s) ?_ ?_ s hinv rfl
  · rintro child t hres rfl
    cases hmake : Buffer.make mark pos lim cap with
    | error e =>
        rw [hmake] at hres
        cases hres
    | ok b =>
        rw [hmake] at hres
        cases hres
        obtain ⟨hvalid, -, -, hcapacity⟩ := Buffer.make_eq_ok hmake hcap
        refine ⟨hvalid, rfl, rfl, hread, hk, rfl, ?_, hinv.minimum_ge,
          hinv.minimum_lt, hpin⟩
        show k + t.buf.offset + b.capacity ≤ _
        rw [hcapacity]
        omega
  · intro e hres
    cases hmake : Buffer.make mark pos lim cap with
    | error e' =>
        rw [hmake] at hres
        cases hres
        exact make_error hmake
    | ok b =>
        rw [hmake] at hres
        cases hres

theorem keeps_pin {p : Int} :
    (contract writes).Keeps (At p) pin
      (fun _ s => At p s ∧ s.buf.recapacityAllowed = false) :=
  Contract.Keeps.modify (fun _ hinv hat =>
    ⟨⟨hinv.numbers, hinv.offset_ge, hinv.window, hinv.length_lt,
      hinv.minimum_ge, hinv.minimum_lt, fun _ => rfl, fun _ => rfl⟩,
      .of_same rfl rfl (fun _ => rfl) rfl rfl rfl rfl, hat, rfl⟩)

/-- A slice begins at the position. -/
theorem keeps_slice {p : Int} :
    (contract writes).Keeps (At p) slice
      (fun child s => IsChild p s child) := by
  refine keeps_pin.bind (fun _ => ?_)
  refine Contract.Keeps.get_bind (fun v hinv hat => ?_)
  obtain ⟨rfl, hpin⟩ := hat
  obtain ⟨h₁, h₂, h₃, h₄, h₅, h₆⟩ := hinv.numbers
  have hwindow := hinv.window
  have hoffset := hinv.offset_ge
  have hlength := hinv.length_lt
  have hfrom : int32 (v.buf.position + v.buf.offset) =
      v.buf.position + v.buf.offset :=
    int32_of_bounds (by omega) (by omega)
  have hrem : v.buf.remaining = v.buf.limit - v.buf.position := rfl
  rw [hfrom]
  exact keeps_derive id hpin (by omega) h₃ (by omega)

/-- A duplicate begins where the buffer begins. -/
theorem keeps_duplicateAs {p : Int} (readOnly : Bool) :
    (contract writes).Keeps (At p) (duplicateAs readOnly)
      (fun child s => IsChild 0 s child) := by
  refine keeps_pin.bind (fun _ => ?_)
  refine Contract.Keeps.get_bind (fun v hinv hat => ?_)
  have hchild := @keeps_derive writes v (readOnly || v.buf.readOnly)
    v.buf.mark v.buf.position v.buf.limit v.buf.capacity 0
    (fun h => by rw [h, Bool.or_true]) hat.2 hinv.numbers.capacity_lt
    (le_refl _) (by omega)
  rwa [zero_add] at hchild

/-- A child stays one whatever the parent does. -/
theorem keeps_child
    {x : Op Unit} (k : Int) (child : ByteBuffer)
    (h : (contract writes).Total x) :
    (contract writes).Keeps (fun s => IsChild k s child) x
      (fun _ s => IsChild k s child) :=
  h.total.stable (fun _ _ => IsChild.frame)

theorem keeps_getSliceAt (index length : Int) :
    (contract writes).Keeps P (getSliceAt index length)
      (fun child s => IsChild index s child) := by
  refine Contract.Keeps.ite (fun _ => .throw nofun) (fun _ => ?_)
  refine Contract.Keeps.get_bind (fun v _ _ => ?_)
  refine Contract.Keeps.ite (fun _ => .throw nofun) (fun _ => ?_)
  refine Contract.Keeps.ite (fun _ => .throw nofun) (fun _ => ?_)
  refine keeps_clear.total.bind (fun _ => ?_)
  refine (keeps_setLimit _).total.bind (fun _ => ?_)
  refine (setPosition_at index).bind (fun _ => ?_)
  refine keeps_slice.bind (fun child => ?_)
  have hlimit := keeps_child index child
    (@keeps_setLimit writes v.buf.limit)
  have hpos := keeps_child index child
    (@keeps_setPosition writes v.buf.position)
  exact hlimit.bind (fun _ => hpos.bind (fun _ =>
    .pure child (fun _ => id)))

theorem keeps_getSlice {p length : Int} (hlt : length < 2 ^ 31) :
    (contract writes).Keeps (At p) (getSlice length)
      (fun child s => IsChild p s child) := by
  refine Contract.Keeps.ite (fun _ => .throw nofun) (fun hlength => ?_)
  refine Contract.Keeps.get_bind (fun v hinv hat => ?_)
  refine Contract.Keeps.ite (fun _ => .throw nofun) (fun _ => ?_)
  obtain ⟨h₁, h₂, h₃, h₄, h₅, h₆⟩ := hinv.numbers
  have hat' : v.buf.position = p := hat
  -- a sum that wraps is negative, and then the limit is not set
  have hnext : 0 ≤ int32 (v.buf.position + length) →
      p ≤ int32 (v.buf.position + length) := by
    unfold int32
    omega
  refine Contract.Keeps.bind ((setLimit_at hnext).weaken
    (fun _ _ h => h ▸ hat) (fun _ _ _ => id)) (fun _ => ?_)
  refine keeps_slice.bind (fun child => ?_)
  have hpos := keeps_child p child
    (@keeps_setPosition writes (int32 (v.buf.position + length)))
  have hlimit := keeps_child p child (@keeps_setLimit writes v.buf.limit)
  exact hpos.bind (fun _ => hlimit.bind (fun _ =>
    .pure child (fun _ => id)))

end Deriving

end Op

end Mina
end NetEngine
