import NetEngine.Lib.Positions
import NetEngine.Mina.Heap

/-!
# Safety of shared arrays

What holds of all buffers in every run.  Every window is within its array and
no request makes an access outside of one.  A request changes the bytes in the
windows of the writable buffer it writes to and no others.  A buffer that was
derived shows the same bytes as the buffer it was derived from, for ever.
-/

namespace NetEngine
namespace Mina

open Net

namespace Heap

/-- Arrays have lengths that an `Int32` can have, and buffers are in order. -/
structure Valid (h : Heap) : Prop where
  arrays : ∀ (a : Nat) (hb : Bytes), h.arrays[a]? = some hb →
    hb.length < 2 ^ 31
  buffers : ∀ (r : Nat) (buf : ByteBuffer) (a : Nat),
    h.buffers[r]? = some (buf, a) → ∃ hb,
      h.arrays[a]? = some hb ∧ View.Valid { buf := buf, hb := hb }

/--
What becomes of a buffer: it keeps its window, or its array is none of the first
`n`.
-/
structure Kept (n : Nat) (buf : ByteBuffer) (a : Nat) (buf' : ByteBuffer)
    (a' : Nat) : Prop where
  readOnly : buf'.readOnly = buf.readOnly
  pinned : buf.recapacityAllowed = false →
    buf'.recapacityAllowed = false ∧ a' = a ∧
      buf'.offset = buf.offset ∧ buf'.capacity = buf.capacity
  moved : (a' = a ∧ buf'.offset = buf.offset ∧
    buf'.capacity = buf.capacity) ∨ n ≤ a'

/-- Only bytes of which `W` holds change. -/
structure Frame (W : Nat → Nat → Prop) (h h' : Heap) : Prop where
  arrays : ∀ (a : Nat) (hb : Bytes), h.arrays[a]? = some hb → ∃ hb',
    h'.arrays[a]? = some hb' ∧ hb'.length = hb.length ∧
      ∀ i, ¬ W a i → hb'.cells i = hb.cells i
  buffers : ∀ (r : Nat) (buf : ByteBuffer) (a : Nat),
    h.buffers[r]? = some (buf, a) → ∃ buf' a',
      h'.buffers[r]? = some (buf', a') ∧
        Kept h.arrays.length buf a buf' a'

section Frames

variable {W : Nat → Nat → Prop} {h h' h'' : Heap} {n n' r a a' a'' : Nat}
variable {buf buf' buf'' : ByteBuffer} {v v' : View}

theorem Kept.refl (n : Nat) (buf : ByteBuffer) (a : Nat) :
    Kept n buf a buf a :=
  ⟨rfl, fun h => ⟨h, rfl, rfl, rfl⟩, .inl ⟨rfl, rfl, rfl⟩⟩

theorem Kept.trans
    (hfirst : Kept n buf a buf' a') (hrest : Kept n' buf' a' buf'' a'')
    (hle : n ≤ n') : Kept n buf a buf'' a'' := by
  refine ⟨hrest.readOnly.trans hfirst.readOnly, ?_, ?_⟩
  · intro hpin
    obtain ⟨hpin', ha', hoffset', hcapacity'⟩ := hfirst.pinned hpin
    obtain ⟨hpin'', ha'', hoffset'', hcapacity''⟩ := hrest.pinned hpin'
    exact ⟨hpin'', ha''.trans ha', hoffset''.trans hoffset',
      hcapacity''.trans hcapacity'⟩
  · rcases hrest.moved with ⟨rfl, hoffset'', hcapacity''⟩ | hnew
    · rcases hfirst.moved with ⟨rfl, hoffset', hcapacity'⟩ | hnew
      · exact .inl ⟨rfl, hoffset''.trans hoffset',
          hcapacity''.trans hcapacity'⟩
      · exact .inr hnew
    · exact .inr (hle.trans hnew)

theorem Frame.refl (W : Nat → Nat → Prop) (h : Heap) : Frame W h h :=
  ⟨fun _ hb hget => ⟨hb, hget, rfl, fun _ _ => rfl⟩,
    fun _ buf a hget => ⟨buf, a, hget, Kept.refl _ buf a⟩⟩

theorem Frame.length_le (hframe : Frame W h h') :
    h.arrays.length ≤ h'.arrays.length := by
  by_contra hlt
  obtain ⟨hb, hget, -, -⟩ := hframe.arrays h'.arrays.length
    _ (List.getElem?_eq_getElem (not_le.mp hlt))
  rw [List.getElem?_eq_none (le_refl _)] at hget
  cases hget

theorem Frame.trans (hfirst : Frame W h h') (hrest : Frame W h' h'') :
    Frame W h h'' := by
  constructor
  · intro a hb hget
    obtain ⟨hb', hget', hlength', hcells'⟩ := hfirst.arrays a hb hget
    obtain ⟨hb'', hget'', hlength'', hcells''⟩ := hrest.arrays a hb' hget'
    refine ⟨hb'', hget'', hlength''.trans hlength', ?_⟩
    intro i hi
    exact (hcells'' i hi).trans (hcells' i hi)
  · intro r buf a hget
    obtain ⟨buf', a', hget', hkept'⟩ := hfirst.buffers r buf a hget
    obtain ⟨buf'', a'', hget'', hkept''⟩ := hrest.buffers r buf' a' hget'
    exact ⟨buf'', a'', hget'', hkept'.trans hkept'' hfirst.length_le⟩

theorem find_eq_some :
    h.find r = some (v, a) ↔
      h.buffers[r]? = some (v.buf, a) ∧ h.arrays[a]? = some v.hb ∧
        v.fresh = false := by
  obtain ⟨buf, hb, fresh⟩ := v
  unfold find
  constructor
  · intro hfind
    obtain ⟨⟨buf', a'⟩, hget, hmap⟩ := Option.bind_eq_some_iff.mp hfind
    obtain ⟨hb', harray, heq⟩ := Option.map_eq_some_iff.mp hmap
    cases heq
    exact ⟨hget, harray, rfl⟩
  · rintro ⟨hget, harray, rfl⟩
    rw [hget, Option.bind_some, harray, Option.map_some]

theorem Valid.view (hvalid : h.Valid) (hfind : h.find r = some (v, a)) :
    v.Valid := by
  obtain ⟨hget, harray, -⟩ := find_eq_some.mp hfind
  obtain ⟨hb, harray', hview⟩ := hvalid.buffers r v.buf a hget
  obtain rfl : v.hb = hb := Option.some.inj (harray.symm.trans harray')
  exact ⟨hview.numbers, hview.offset_ge, hview.window, hview.length_lt,
    hview.minimum_ge, hview.minimum_lt, hview.derived, hview.readOnly⟩

/-- A buffer in a valid heap is found. -/
theorem Valid.find (hvalid : h.Valid) (hget : h.buffers[r]? = some (buf, a)) :
    ∃ hb, h.find r = some ({ buf := buf, hb := hb }, a) := by
  obtain ⟨hb, harray, -⟩ := hvalid.buffers r buf a hget
  exact ⟨hb, find_eq_some.mpr ⟨hget, harray, rfl⟩⟩

/-- What a method leaves of its buffer is in order. -/
theorem Valid.update
    (hvalid : h.Valid) (hfind : h.find r = some (v, a)) {writes : Bool}
    (hframe : View.Frame writes v v') (hview : v'.Valid) :
    (h.update r a v').Valid := by
  obtain ⟨hget, harray, -⟩ := find_eq_some.mp hfind
  have hlt : a < h.arrays.length := (List.getElem?_eq_some_iff.mp harray).1
  have hr : r < h.buffers.length := (List.getElem?_eq_some_iff.mp hget).1
  unfold Heap.update
  cases hfresh : v'.fresh with
  | true =>
      rw [if_pos rfl]
      constructor
      · intro a' hb hget'
        rcases getElem?_concat_cases hget' with hold | ⟨-, rfl⟩
        · exact hvalid.arrays a' hb hold
        · exact hview.length_lt
      · intro r' buf a' hget'
        by_cases hr' : r = r'
        · subst hr'
          rw [List.getElem?_set_self hr] at hget'
          cases hget'
          exact ⟨v'.hb, List.getElem?_concat_length, hview.unmarked⟩
        · rw [List.getElem?_set_ne hr'] at hget'
          obtain ⟨hb, harray', hview'⟩ := hvalid.buffers r' buf a' hget'
          have hlt' := (List.getElem?_eq_some_iff.mp harray').1
          exact ⟨hb, (List.getElem?_append_left hlt').trans harray', hview'⟩
  | false =>
      rw [if_neg Bool.false_ne_true]
      obtain ⟨-, -, -, hlength, -⟩ := hframe.kept hfresh
      constructor
      · intro a' hb hget'
        by_cases ha : a = a'
        · subst ha
          rw [List.getElem?_set_self hlt] at hget'
          cases hget'
          exact hview.length_lt
        · rw [List.getElem?_set_ne ha] at hget'
          exact hvalid.arrays a' hb hget'
      · intro r' buf a' hget'
        by_cases hr' : r = r'
        · subst hr'
          rw [List.getElem?_set_self hr] at hget'
          cases hget'
          exact ⟨v'.hb, List.getElem?_set_self hlt, hview.unmarked⟩
        · rw [List.getElem?_set_ne hr'] at hget'
          obtain ⟨hb, harray', hview'⟩ := hvalid.buffers r' buf a' hget'
          by_cases ha : a = a'
          · subst ha
            obtain rfl : v.hb = hb :=
              Option.some.inj (harray.symm.trans harray')
            exact ⟨v'.hb, List.getElem?_set_self hlt,
              hview'.onArray hlength⟩
          · exact ⟨hb, (List.getElem?_set_ne ha).trans harray', hview'⟩

/-- A buffer is where it was or on a new array, as its method left it. -/
theorem kept_update
    (hfind : h.find r = some (v, a)) {writes : Bool}
    (hframe : View.Frame writes v v') :
    ∃ a', (h.update r a v').buffers[r]? = some (v'.buf, a') ∧
      (h.update r a v').arrays[a']? = some v'.hb ∧
        Kept h.arrays.length v.buf a v'.buf a' := by
  obtain ⟨hget, harray, hold⟩ := find_eq_some.mp hfind
  have hlt : a < h.arrays.length := (List.getElem?_eq_some_iff.mp harray).1
  have hr : r < h.buffers.length := (List.getElem?_eq_some_iff.mp hget).1
  unfold Heap.update
  cases hfresh : v'.fresh with
  | true =>
      rw [if_pos rfl]
      refine ⟨h.arrays.length, List.getElem?_set_self hr,
        List.getElem?_concat_length, hframe.readOnly, ?_, .inr (le_refl _)⟩
      intro hpin
      obtain ⟨-, hstays, -⟩ := hframe.pinned hpin
      rw [hold, hfresh] at hstays
      cases hstays
  | false =>
      rw [if_neg Bool.false_ne_true]
      obtain ⟨-, hoffset, hcapacity, -⟩ := hframe.kept hfresh
      refine ⟨a, List.getElem?_set_self hr, List.getElem?_set_self hlt,
        hframe.readOnly, ?_, .inl ⟨rfl, hoffset, hcapacity⟩⟩
      intro hpin
      obtain ⟨hpin', -, -⟩ := hframe.pinned hpin
      exact ⟨hpin', rfl, hoffset, hcapacity⟩

/-- Only bytes in the window of the buffer change, if the method writes. -/
theorem frame_update
    (hfind : h.find r = some (v, a)) {writes : Bool}
    (hframe : View.Frame writes v v')
    (hW : writes = true → v.buf.readOnly = false → ∀ i : Nat,
      v.buf.offset ≤ i → i < v.buf.offset + v.buf.capacity → W a i) :
    Frame W h (h.update r a v') := by
  obtain ⟨hget, harray, -⟩ := find_eq_some.mp hfind
  have hlt : a < h.arrays.length := (List.getElem?_eq_some_iff.mp harray).1
  obtain ⟨b, hbuffer, -, hkept⟩ := kept_update hfind hframe
  constructor
  · intro a' hb hget'
    have hlt' : a' < h.arrays.length :=
      (List.getElem?_eq_some_iff.mp hget').1
    unfold Heap.update
    cases hfresh : v'.fresh with
    | true =>
        rw [if_pos rfl]
        exact ⟨hb, (List.getElem?_append_left hlt').trans hget', rfl,
          fun _ _ => rfl⟩
    | false =>
        rw [if_neg Bool.false_ne_true]
        obtain ⟨-, -, -, hlength, hcells⟩ := hframe.kept hfresh
        by_cases ha : a = a'
        · subst ha
          obtain rfl : v.hb = hb := Option.some.inj (harray.symm.trans hget')
          refine ⟨v'.hb, List.getElem?_set_self hlt, hlength, ?_⟩
          intro i hi
          cases hwrites : writes with
          | false =>
              rw [hframe.still hwrites hfresh]
          | true =>
              cases hread : v.buf.readOnly with
              | true =>
                  rw [hframe.bytes hread]
              | false =>
                  apply hcells
                  by_contra hout
                  obtain ⟨hge, hle⟩ := not_or.mp hout
                  exact hi (hW hwrites hread i (not_lt.mp hge)
                    (not_le.mp hle))
        · exact ⟨hb, (List.getElem?_set_ne ha).trans hget', rfl,
            fun _ _ => rfl⟩
  · intro r' buf a' hget'
    by_cases hr : r = r'
    · subst hr
      rw [hget] at hget'
      cases hget'
      exact ⟨v'.buf, b, hbuffer, hkept⟩
    · refine ⟨buf, a', ?_, Kept.refl _ buf a'⟩
      unfold Heap.update
      split_ifs
      · exact (List.getElem?_set_ne hr).trans hget'
      · exact (List.getElem?_set_ne hr).trans hget'

end Frames

/-- The bytes in the window of buffer `r`, if it can be written to. -/
def Touches (h : Heap) (r a i : Nat) : Prop :=
  ∃ v, h.find r = some (v, a) ∧ v.buf.readOnly = false ∧
    v.buf.offset ≤ i ∧ i < v.buf.offset + v.buf.capacity

/-- What a request writes, and the arrays made on the way. -/
def Allowed (n : Nat) (T : Nat → Nat → Prop) (a i : Nat) : Prop :=
  n ≤ a ∨ T a i

/--
The contract of the parts of a request that writes bytes of which `T` holds,
where there are `n` arrays before it.
-/
def contract (n : Nat) (T : Nat → Nat → Prop) :
    Contract BufferException Heap where
  inv := fun h => h.Valid ∧ n ≤ h.arrays.length
  rel := Frame (Allowed n T)
  err := fun e => e ≠ .outside
  refl := Frame.refl _
  trans := Frame.trans

/-- What can be written to through buffer `r` may be written. -/
def Covers (n : Nat) (T : Nat → Nat → Prop) (r : Nat) (h : Heap) : Prop :=
  ∀ a i, h.Touches r a i → Allowed n T a i

section Requests

variable {n : Nat} {T : Nat → Nat → Prop} {P : Heap → Prop} {h h' : Heap}
variable {r s a : Nat} {v : View}

/-- A buffer keeps its window or moves to a new array. -/
theorem Covers.frame
    {W : Nat → Nat → Prop} (hcovers : Covers n T r h)
    (hfind : h.find r = some (v, a)) (hle : n ≤ h.arrays.length)
    (hframe : Frame W h h') : Covers n T r h' := by
  rintro a' i ⟨v', hfind', hread', hge', hlt'⟩
  obtain ⟨hget, -, -⟩ := find_eq_some.mp hfind
  obtain ⟨hget', -, -⟩ := find_eq_some.mp hfind'
  obtain ⟨buf, b, hbuffer, hkept⟩ := hframe.buffers r v.buf a hget
  rw [hget'] at hbuffer
  cases hbuffer
  rcases hkept.moved with ⟨rfl, hoffset, hcapacity⟩ | hnew
  · refine hcovers a' i ⟨v, hfind, hkept.readOnly.symm.trans hread', ?_, ?_⟩
    · omega
    · omega
  · exact .inl (hle.trans hnew)

theorem on_none {α : Type} (hfind : h.find r = none) (x : Op α) :
    on r x h = .error .nullReference h := by
  rw [on, hfind]

theorem look_none (hfind : h.find r = none) :
    look r h = .error .nullReference h := by
  rw [look, hfind]

theorem look_some (hfind : h.find r = some (v, a)) :
    look r h = .ok (v, a) h := by
  rw [look, hfind]

/-- A method of buffer `r` that keeps the contract of methods. -/
theorem keeps_on
    {α : Type} {x : Op α} {Q : α → View → Prop} {writes : Bool}
    (hx : (Mina.contract writes).Keeps (fun _ => True) x Q)
    (hcovers : ∀ t, P t → writes = true → Covers n T r t) :
    (contract n T).Keeps P (on r x) (fun y t => ∃ v b,
      t.find r = some ({ buf := v.buf, hb := v.hb }, b) ∧ Q y v) := by
  rintro t ⟨hvalid, hle⟩ hP
  cases hfind : t.find r with
  | none =>
      rw [on_none hfind]
      exact .error nofun ⟨hvalid, hle⟩ (Frame.refl _ t)
  | some found =>
      obtain ⟨v, a⟩ := found
      have hend := hx v (hvalid.view hfind) trivial
      have hwrites : writes = true → v.buf.readOnly = false →
          ∀ i : Nat, v.buf.offset ≤ i → i < v.buf.offset + v.buf.capacity →
            Allowed n T a i :=
        fun hw hread i hge hlt =>
          hcovers t hP hw a i ⟨v, hfind, hread, hge, hlt⟩
      unfold on
      rw [hfind]
      dsimp only
      cases hres : x v with
      | ok y v' =>
          rw [hres] at hend
          cases hend with
          | ok hview hframe hQ =>
              have hrel := frame_update hfind hframe hwrites
              obtain ⟨b, hget, harray, -⟩ := kept_update hfind hframe
              exact .ok ⟨hvalid.update hfind hframe hview,
                hle.trans hrel.length_le⟩ hrel
                ⟨v', b, find_eq_some.mpr ⟨hget, harray, rfl⟩, hQ⟩
      | error e v' =>
          rw [hres] at hend
          cases hend with
          | error herr hview hframe =>
              have hrel := frame_update hfind hframe hwrites
              exact .error herr ⟨hvalid.update hfind hframe hview,
                hle.trans hrel.length_le⟩ hrel

/-- A method that writes nothing. -/
theorem keeps_on_quiet
    {α : Type} {x : Op α} (hx : (Mina.contract false).Total x) :
    (contract n T).Total (on r x) :=
  (keeps_on hx (fun _ _ => nofun)).forget

/-- A buffer is added on an array that holds its window. -/
theorem keeps_addBuffer (buf : ByteBuffer) (a : Nat) :
    (contract n T).Keeps
      (fun t => ∃ hb, t.arrays[a]? = some hb ∧
        View.Valid { buf := buf, hb := hb })
      (addBuffer buf a) (fun _ _ => True) := by
  refine Contract.Keeps.modify ?_
  rintro t ⟨hvalid, hle⟩ ⟨hb, harray, hview⟩
  refine ⟨⟨⟨hvalid.arrays, ?_⟩, hle⟩, ⟨?_, ?_⟩, trivial⟩
  · intro r' buf' a' hget
    rcases getElem?_concat_cases hget with hold | ⟨-, heq⟩
    · exact hvalid.buffers r' buf' a' hold
    · cases heq
      exact ⟨hb, harray, hview⟩
  · exact (Frame.refl _ t).arrays
  · intro r' buf' a' hget
    have hlt := (List.getElem?_eq_some_iff.mp hget).1
    exact ⟨buf', a', (List.getElem?_append_left hlt).trans hget,
      Kept.refl _ buf' a'⟩

theorem keeps_addArray {hb : Bytes} (hlt : hb.length < 2 ^ 31) :
    (contract n T).Keeps P (addArray hb)
      (fun a t => t.arrays[a]? = some hb) := by
  rintro t ⟨hvalid, hle⟩ _
  refine .ok ⟨⟨?_, ?_⟩, ?_⟩ ⟨?_, ?_⟩ List.getElem?_concat_length
  · intro a' hb' hget
    rcases getElem?_concat_cases hget with hold | ⟨-, rfl⟩
    · exact hvalid.arrays a' hb' hold
    · exact hlt
  · intro r' buf' a' hget
    obtain ⟨hb', harray, hview⟩ := hvalid.buffers r' buf' a' hget
    have hlt' := (List.getElem?_eq_some_iff.mp harray).1
    exact ⟨hb', (List.getElem?_append_left hlt').trans harray, hview⟩
  · rw [List.length_append]
    omega
  · intro a' hb' hget
    have hlt' := (List.getElem?_eq_some_iff.mp hget).1
    exact ⟨hb', (List.getElem?_append_left hlt').trans hget, rfl,
      fun _ _ => rfl⟩
  · exact (Frame.refl (Allowed n T) t).buffers

/-- A buffer that is constructed shows its whole array. -/
theorem construct_valid
    {pos lim : Int} {hb : Bytes} {made : ByteBuffer × Bytes}
    (hlt : hb.length < 2 ^ 31) (hmade : construct pos lim hb = .ok made) :
    made.2 = hb ∧ View.Valid { buf := made.1, hb := hb } := by
  unfold construct at hmade
  cases hmake : Buffer.make (-1) pos lim hb.length with
  | error e =>
      rw [hmake] at hmade
      cases hmade
  | ok b =>
      rw [hmake] at hmade
      cases hmade
      obtain ⟨hvalid, -, -, hcapacity⟩ :=
        Buffer.make_eq_ok hmake (by exact_mod_cast hlt)
      refine ⟨rfl, hvalid, le_refl _, ?_, hlt, ?_, ?_, nofun, nofun⟩
      · show 0 + b.capacity ≤ _
        rw [hcapacity, zero_add]
      · exact Int.natCast_nonneg _
      · show ((hb.length : Nat) : Int) < 2 ^ 31
        exact_mod_cast hlt

theorem construct_error
    {pos lim : Int} {hb : Bytes} {e : BufferException}
    (hmade : construct pos lim hb = .error e) : e ≠ .outside := by
  unfold construct at hmade
  cases hmake : Buffer.make (-1) pos lim hb.length with
  | error e' =>
      rw [hmake] at hmade
      cases hmade
      exact Op.make_error hmake
  | ok b =>
      rw [hmake] at hmade
      cases hmade

theorem keeps_allocate {capacity : Int} (hlt : capacity < 2 ^ 31) :
    (contract n T).Total (allocate capacity) := by
  unfold allocate
  cases hmade : Mina.allocate capacity with
  | error e =>
      refine Contract.Keeps.throw ?_
      unfold Mina.allocate at hmade
      split_ifs at hmade
      · cases hmade
        exact nofun
      · exact construct_error hmade
  | ok made =>
      have hzeros := Op.zeros_length_lt hlt
      unfold Mina.allocate at hmade
      split_ifs at hmade
      obtain ⟨hb, hview⟩ := construct_valid hzeros hmade
      dsimp only
      rw [hb]
      refine (keeps_addArray hzeros).bind (fun a => ?_)
      exact (keeps_addBuffer made.1 a).weaken
        (fun t _ harray => ⟨_, harray, hview⟩) (fun _ _ _ _ => trivial)

theorem keeps_wrap (a : Nat) (offset length : Int) :
    (contract n T).Total (wrap a offset length) := by
  refine Contract.Keeps.get_bind (fun t hinv _ => ?_)
  cases harray : t.arrays[a]? with
  | none =>
      exact Contract.Keeps.throw (e := BufferException.nullReference) nofun
  | some array =>
      dsimp only
      unfold Mina.wrap
      cases hmade : construct offset (int32 (offset + length)) array with
      | error e =>
          exact Contract.Keeps.throw
            (e := BufferException.indexOutOfRange "") nofun
      | ok made =>
          obtain ⟨-, hview⟩ :=
            construct_valid (hinv.1.arrays a array harray) hmade
          refine (keeps_addBuffer made.1 a).weaken ?_
            (fun _ _ _ _ => trivial)
          rintro _ _ rfl
          exact ⟨array, harray, hview⟩

theorem keeps_look (r : Nat) :
    (contract n T).Keeps P (look r)
      (fun found t => t.find r = some found ∧ P t) := by
  intro t hinv hP
  cases hfind : t.find r with
  | none =>
      rw [look_none hfind]
      exact .error nofun hinv (Frame.refl _ t)
  | some found =>
      rw [look_some hfind]
      exact .ok hinv (Frame.refl _ t) ⟨hfind, hP⟩

/-- A derived buffer is in order on the array of the other one. -/
theorem child_view
    {k : Int} {child : ByteBuffer} (hchild : Op.IsChild k v child)
    (hview : View.Valid { buf := v.buf, hb := v.hb }) :
    View.Valid { buf := child, hb := v.hb } := by
  have hoffset := hview.offset_ge
  have hwindow := hview.window
  have hstart := hchild.start_ge
  have heq := hchild.offset_eq
  exact ⟨hchild.numbers, by dsimp only at hoffset ⊢; omega,
    hchild.window_le.trans hwindow, hview.length_lt, hchild.minimum_ge,
    hchild.minimum_lt, fun _ => hchild.pinned, fun _ => hchild.pinned⟩

theorem keeps_derive (r : Nat) (d : Derivation) :
    (contract n T).Total (derive r d) := by
  have hd : (Mina.contract false).Keeps (fun _ => True) d.run
      (fun child v => ∃ k, Op.IsChild k v child) :=
    .of_each (P := Op.At) (fun v => v.buf.position) (fun _ => rfl)
      (fun _ => d.keeps.weaken (fun _ _ => id) (fun _ _ _ h => ⟨_, h⟩))
  refine (keeps_on (r := r) hd (fun _ _ => nofun)).bind (fun child => ?_)
  refine (keeps_look r).bind (fun found => ?_)
  refine (keeps_addBuffer child found.2).weaken ?_ (fun _ _ _ _ => trivial)
  rintro t ⟨hvalid, -⟩ ⟨hfind, v, b, hfind', k, hchild⟩
  rw [hfind] at hfind'
  cases hfind'
  obtain ⟨-, harray, -⟩ := find_eq_some.mp hfind
  exact ⟨v.hb, harray, child_view hchild (hvalid.view hfind)⟩

/-- What the source shows is copied, and both positions move on. -/
theorem keeps_putInternal {src : View} :
    (contract n T).Keeps
      (fun t => t.find s = some (src, a) ∧ Covers n T r t)
      (putInternal r s src) (fun _ _ => True) := by
  rintro t hinv ⟨hfind, hcovers⟩
  have hview := hinv.1.view hfind
  obtain ⟨h₁, h₂, h₃, h₄, h₅, h₆⟩ := hview.numbers
  have hwindow := hview.window
  have hoffset := hview.offset_ge
  have hlength := hview.length_lt
  have hrem : src.buf.remaining = src.buf.limit - src.buf.position := rfl
  have hfrom : int32 (src.buf.position + src.buf.offset) =
      src.buf.position + src.buf.offset :=
    int32_of_bounds (by omega) (by omega)
  have hcopy : (contract n T).Keeps (fun t => Covers n T r t)
      (on r (putRemaining src.hb
        (int32 (src.buf.position + src.buf.offset)) src.buf.remaining))
      (fun _ _ => True) := by
    rw [hfrom]
    exact (keeps_on (keeps_putRemaining (by omega) (by omega) (by omega))
      (fun _ h _ => h)).forget
  exact hcopy.bind (fun _ =>
    (keeps_on_quiet (keeps_advance _)).bind (fun _ =>
      keeps_on_quiet (keeps_advance _))) t hinv hcovers

theorem keeps_putBuffer (r s : Nat) :
    (contract n T).Keeps (Covers n T r) (putBuffer r s)
      (fun _ _ => True) := by
  refine Contract.Keeps.ite (fun _ => .throw nofun) (fun _ => ?_)
  refine (keeps_look s).bind (fun src => ?_)
  rintro h hinv ⟨-, hcovers⟩
  cases hr : h.find r with
  | none =>
      rw [Fallible.bind_error (on_none hr _)]
      exact .error nofun hinv (Frame.refl _ h)
  | some target =>
      have hexpand : (contract n T).Keeps (Frame (Allowed n T) h)
          (on r (Op.autoExpandHere src.1.buf.remaining))
          (fun _ => Frame (Allowed n T) h) :=
        (keeps_on_quiet (Op.keeps_autoExpandHere _)).total.stable
          (fun _ _ => Frame.trans)
      refine hexpand.bind (fun _ => (keeps_look s).bind (fun src' => ?_))
        h hinv (Frame.refl _ h)
      refine keeps_putInternal.weaken (P := fun t =>
        t.find s = some (src'.1, src'.2) ∧ Covers n T r t) ?_
        (fun _ _ _ _ => trivial)
      rintro t - ⟨hfind, hframe⟩
      exact ⟨hfind, hcovers.frame hr hinv.2 hframe⟩

/-- The bytes that a request writes in a heap. -/
def Writes (h : Heap) : Request → Nat → Nat → Prop
  | .call r c, a, i => c.writes = true ∧ h.Touches r a i
  | .putBuffer r _, a, i => h.Touches r a i
  | _, _, _ => False

theorem keeps_request (hvalid : h.Valid) (q : Request) :
    (contract h.arrays.length (h.Writes q)).Ends h (fun _ _ => True)
      (q.run h) := by
  have hinv : h.Valid ∧ h.arrays.length ≤ h.arrays.length :=
    ⟨hvalid, le_refl _⟩
  cases q with
  | allocate capacity =>
      exact keeps_allocate capacity.toInt_lt h hinv trivial
  | addArray array =>
      exact ((keeps_addArray (P := fun _ => True) array.2).forget.bind
        (fun _ => .pure _ (fun _ _ => trivial))) h hinv trivial
  | wrap a offset length =>
      exact keeps_wrap a _ _ h hinv trivial
  | call r c =>
      refine (keeps_on (P := fun t => t = h) c.keeps ?_).forget h hinv rfl
      rintro t rfl hwrites a i htouches
      exact .inr ⟨hwrites, htouches⟩
  | derive r d =>
      exact keeps_derive r d h hinv trivial
  | putBuffer r s =>
      exact keeps_putBuffer r s h hinv (fun _ _ => .inr)

/-- What a request does to a heap, and that it stays within the arrays. -/
theorem step_spec (hvalid : h.Valid) (q : Request) :
    (step h q).1.Valid ∧
      Frame (Allowed h.arrays.length (h.Writes q)) h (step h q).1 ∧
        ∀ e ∈ (step h q).2, e ≠ .outside := by
  have hend := keeps_request hvalid q
  unfold step
  cases hres : q.run h with
  | ok y t =>
      rw [hres] at hend
      cases hend with
      | ok hinv hrel _ =>
          exact ⟨hinv.1, hrel, fun _ hmem => absurd hmem List.not_mem_nil⟩
  | error e t =>
      rw [hres] at hend
      cases hend with
      | error herr hinv hrel =>
          refine ⟨hinv.1, hrel, ?_⟩
          intro e' hmem
          rw [List.mem_singleton.mp hmem]
          exact herr

end Requests

/-- A run of requests. -/
abbrev runFrom (h : Heap) (requests : List Request) :
    Heap × List BufferException :=
  Machine.run step h requests

/-- A run of requests from the start of the program. -/
abbrev run (requests : List Request) : Heap × List BufferException :=
  runFrom empty requests

section Runs

variable {h : Heap} {r s a : Nat} {v : View}

theorem valid_empty : empty.Valid :=
  ⟨nofun, nofun⟩

theorem runFrom_valid (hvalid : h.Valid) (requests : List Request) :
    (runFrom h requests).1.Valid :=
  Machine.run_invariant (I := fun (t : Heap) _ => t.Valid) hvalid
    (fun _ _ q ht => (step_spec ht q).1) requests

/--
In every run all windows stay within their arrays, and nothing is read or
written outside of an array.
-/
theorem run_safe (requests : List Request) :
    (run requests).1.Valid ∧ .outside ∉ (run requests).2 := by
  refine Machine.run_invariant
    (I := fun (t : Heap) tr => t.Valid ∧ BufferException.outside ∉ tr)
    ?_ ?_ requests
  · exact ⟨valid_empty, List.not_mem_nil⟩
  · rintro t tr q ⟨ht, hsafe⟩
    obtain ⟨hvalid, -, hstep⟩ := step_spec ht q
    refine ⟨hvalid, fun hmem => ?_⟩
    rcases List.mem_append.mp hmem with hold | hnew
    · exact hsafe hold
    · exact hstep _ hnew rfl

/-- Two buffers show the same array, the second one `k` bytes further on. -/
def Shares (k : Int) (r s : Nat) (h : Heap) : Prop :=
  ∃ buf child a, h.buffers[r]? = some (buf, a) ∧
    h.buffers[s]? = some (child, a) ∧ buf.recapacityAllowed = false ∧
      child.recapacityAllowed = false ∧ child.offset = k + buf.offset

theorem Shares.frame
    {k : Int} {W : Nat → Nat → Prop} {h' : Heap} (hshares : Shares k r s h)
    (hframe : Frame W h h') : Shares k r s h' := by
  obtain ⟨buf, child, a, hr, hs, hpin, hpin', hoffset⟩ := hshares
  obtain ⟨buf', b, hr', hkept⟩ := hframe.buffers r buf a hr
  obtain ⟨child', b', hs', hkept'⟩ := hframe.buffers s child a hs
  obtain ⟨hstays, rfl, hoff, -⟩ := hkept.pinned hpin
  obtain ⟨hstays', rfl, hoff', -⟩ := hkept'.pinned hpin'
  refine ⟨buf', child', _, hr', hs', hstays, hstays', ?_⟩
  rw [hoff, hoff', hoffset]

theorem runFrom_shares
    {k : Int} (hvalid : h.Valid) (hshares : Shares k r s h)
    (requests : List Request) : Shares k r s (runFrom h requests).1 := by
  have hrun : (runFrom h requests).1.Valid ∧
      Shares k r s (runFrom h requests).1 := by
    refine Machine.run_invariant
      (I := fun (t : Heap) _ => t.Valid ∧ Shares k r s t)
      ⟨hvalid, hshares⟩ ?_ requests
    rintro t _ q ⟨ht, hold⟩
    obtain ⟨hnext, hframe, -⟩ := step_spec ht q
    exact ⟨hnext, hold.frame hframe⟩
  exact hrun.2

/-- A derivation that does not throw adds one buffer. -/
theorem step_derive
    (hvalid : h.Valid) (hfind : h.find r = some (v, a)) {d : Derivation}
    (hok : (step h (.derive r d)).2 = []) :
    ∃ child v' b, d.run v = .ok child v' ∧
      (step h (.derive r d)).1.buffers[r]? = some (v'.buf, b) ∧
        (step h (.derive r d)).1.buffers[h.buffers.length]? =
          some (child, b) := by
  have hend := @Derivation.keeps false v.buf.position d v
    (hvalid.view hfind) rfl
  cases hres : d.run v with
  | error e v' =>
      have hrun : on r d.run h = .error e (h.update r a v') := by
        simp only [on, hfind, hres]
      have hstep : step h (.derive r d) = (h.update r a v', [e]) := by
        simp only [step, Request.run, derive, Fallible.bind_error hrun]
      rw [hstep] at hok
      cases hok
  | ok child v' =>
      rw [hres] at hend
      cases hend with
      | ok _ hframe _ =>
          obtain ⟨b, hget, harray, -⟩ := kept_update hfind hframe
          have hrun : on r d.run h = .ok child (h.update r a v') := by
            simp only [on, hfind, hres]
          have hlook : look r (h.update r a v') =
              .ok ({ buf := v'.buf, hb := v'.hb }, b) (h.update r a v') :=
            look_some (find_eq_some.mpr ⟨hget, harray, rfl⟩)
          have hlength : (h.update r a v').buffers.length =
              h.buffers.length := by
            unfold Heap.update
            split_ifs
            · exact List.length_set
            · exact List.length_set
          have hstep : (step h (.derive r d)).1 =
              { h.update r a v' with
                buffers := (h.update r a v').buffers ++ [(child, b)] } := by
            simp only [step, Request.run, derive, Fallible.bind_ok hrun,
              Fallible.bind_ok hlook]
            rfl
          have hlt := (List.getElem?_eq_some_iff.mp hget).1
          rw [hstep]
          refine ⟨child, v', b, rfl,
            (List.getElem?_append_left hlt).trans hget, ?_⟩
          dsimp only
          rw [← hlength]
          exact List.getElem?_concat_length

/-- A derived buffer shares the array of the other one. -/
theorem derive_shares
    (hvalid : h.Valid) (hfind : h.find r = some (v, a)) {d : Derivation}
    (hok : (step h (.derive r d)).2 = []) :
    Shares (d.start v.buf.position) r h.buffers.length
      (step h (.derive r d)).1 := by
  obtain ⟨child, v', b, hres, hr, hs⟩ := step_derive hvalid hfind hok
  have hend := @Derivation.keeps false v.buf.position d v
    (hvalid.view hfind) rfl
  rw [hres] at hend
  cases hend with
  | ok _ _ hchild =>
      exact ⟨v'.buf, child, b, hr, hs, hchild.parent, hchild.pinned,
        hchild.offset_eq⟩

/-- What `Get(i)` of buffer `r` returns. -/
def byteAt (h : Heap) (r : Nat) (i : Int) : Option UInt8 :=
  match on r (Op.getAt i) h with
  | .ok b _ => some b
  | .error _ _ => none

theorem byteAt_eq_some
    (hvalid : h.Valid) {buf : ByteBuffer} (hget : h.buffers[r]? = some (buf, a))
    {i : Int} {b : UInt8} (hbyte : h.byteAt r i = some b) :
    ∃ hb, h.arrays[a]? = some hb ∧ b = hb.cells (i + buf.offset).toNat := by
  obtain ⟨hb, hfind⟩ := hvalid.find hget
  obtain ⟨-, harray, -⟩ := find_eq_some.mp hfind
  have hview := hvalid.view hfind
  cases hres : Op.getAt i { buf := buf, hb := hb } with
  | error e v' =>
      have hrun : on r (Op.getAt i) h = .error e (h.update r a v') := by
        simp only [on, hfind, hres]
      rw [byteAt, hrun] at hbyte
      cases hbyte
  | ok b' v' =>
      have hrun : on r (Op.getAt i) h = .ok b' (h.update r a v') := by
        simp only [on, hfind, hres]
      rw [byteAt, hrun] at hbyte
      obtain rfl : b' = b := Option.some.inj hbyte
      exact ⟨hb, harray, (Op.getAt_eq_ok hview hres).2.2⟩

/-- Two buffers that share an array return the same bytes. -/
theorem Shares.byteAt_eq
    {k : Int} (hvalid : h.Valid) (hshares : Shares k r s h) {i : Int}
    {x y : UInt8} (hx : h.byteAt s i = some x)
    (hy : h.byteAt r (i + k) = some y) : x = y := by
  obtain ⟨buf, child, a, hr, hs, -, -, hoffset⟩ := hshares
  obtain ⟨hb, harray, rfl⟩ := byteAt_eq_some hvalid hs hx
  obtain ⟨hb', harray', rfl⟩ := byteAt_eq_some hvalid hr hy
  obtain rfl : hb = hb' := Option.some.inj (harray.symm.trans harray')
  rw [hoffset, ← add_assoc]

/--
A buffer and one derived from it return the same bytes for ever, whichever of
them, or of the others, is written to.
-/
theorem derived_byteAt_eq
    (before : List Request) (hfind : (run before).1.find r = some (v, a))
    {d : Derivation} (hok : (step (run before).1 (.derive r d)).2 = [])
    (after : List Request) {i : Int} {x y : UInt8}
    (hx : (runFrom (step (run before).1 (.derive r d)).1 after).1.byteAt
      (run before).1.buffers.length i = some x)
    (hy : (runFrom (step (run before).1 (.derive r d)).1 after).1.byteAt
      r (i + d.start v.buf.position) = some y) : x = y := by
  have hvalid := runFrom_valid valid_empty before
  have hnext := (step_spec hvalid (.derive r d)).1
  have hshares := runFrom_shares hnext (derive_shares hvalid hfind hok) after
  exact hshares.byteAt_eq (runFrom_valid hnext after) hx hy

/-- A slice from the third of four bytes on, and a write into the slice. -/
def sliced : Heap :=
  (runFrom (step (run [.allocate 4, .call 0 (.skip 2)]).1 (.derive 0 .slice)).1
    [.call 1 (.putAt 0 5)]).1

theorem derived_byteAt_eq_sliced :
    ∃ x y, sliced.byteAt 1 0 = some x ∧ sliced.byteAt 0 2 = some y ∧ x = y := by
  have hchild : sliced.byteAt 1 0 = some 5 := rfl
  have hparent : sliced.byteAt 0 2 = some 5 := rfl
  refine ⟨5, 5, hchild, hparent, ?_⟩
  refine derived_byteAt_eq [.allocate 4, .call 0 (.skip 2)] rfl
    (d := .slice) rfl [.call 1 (.putAt 0 5)] hchild ?_
  exact hparent

end Runs

end Heap

end Mina
end NetEngine
