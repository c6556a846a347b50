import NetEngine.Net.Framing

/-!
# The copies of Cell::Recv

Every pass of the extraction loop copies the length field into a local `int`,
the buffer into a local `MessageBody` and the bytes behind a message onto the
message.  `pass` is the loop's body with the `memcpy` and `memmove` calls that
it makes; `Enters` are the states in which passes begin and `Leaves` is the loop
itself, without a bound on its rounds.

The length field is up to the sender.  Near `INT_MAX` the sum with the field's
own size wraps around to a negative count, and above half of the buffer the
`memmove` reads behind it.  No other length does harm (`copies_inBounds_iff`),
so the loop is safe exactly when it never meets one of these
(`recvSafe_iff`).
-/

namespace NetEngine
namespace Net

/-- What a copy writes, from its beginning on. -/
inductive CopyTarget where
  /-- The `int` in `GetPackageLength`. -/
  | len
  | body
  | buffer_msg
deriving DecidableEq

/-- Bytes of the target. -/
def CopyTarget.bytes : CopyTarget → Nat
  | .len => 4
  | .body => MessageBody.SIZEOF
  | .buffer_msg => RECV_BUFFER_SIZE

/-- A `memcpy` or `memmove` that reads `m_buffer_msg` from `source` on. -/
structure Copy where
  target : CopyTarget
  source : Int
  size : Int
deriving DecidableEq

/-- The size is not negative and both ranges are inside their objects. -/
def Copy.InBounds (c : Copy) : Prop :=
  0 ≤ c.size ∧ 0 ≤ c.source ∧ c.source + c.size ≤ RECV_BUFFER_SIZE ∧
    c.size ≤ c.target.bytes

instance (c : Copy) : Decidable c.InBounds :=
  inferInstanceAs (Decidable (_ ∧ _))

/-- Length field at the front of the buffer. -/
def ClientSocket.lengthField (cs : ClientSocket) : Nat :=
  cs.memory.readLE 0 MessageBody.HEADER_LEN_BYTES

namespace Cell

/-- `GetPackageLength` and its copy. -/
def packageLength (cs : ClientSocket) : Int × List Copy :=
  (cs.getPackageLength,
    if cs.lastPos < MessageBody.HEADER_SIZE then []
    else [⟨.len, 0, MessageBody.HEADER_LEN_BYTES⟩])

/-- The extraction loop's body, up to `OnMessageProc`, and its copies. -/
def pass (cs : ClientSocket) : Extraction × List Copy :=
  if cs.lastPos < MessageBody.HEADER_SIZE then (.leave, [])
  else
    let len := (packageLength cs).1
    if len < 0 then (.leave, (packageLength cs).2)
    else
      let copysize : Nat :=
        if (MessageBody.SIZEOF : Int) ≤ cs.lastPos then MessageBody.SIZEOF
        else cs.lastPos.toNat
      let body := MessageBody.ofBytes cs.memory copysize
      let body_size₀ := int32 (len + MessageBody.HEADER_LEN_BYTES)
      let body_size :=
        if body_size₀ > cs.lastPos then cs.lastPos else body_size₀
      let copies : List Copy :=
        (packageLength cs).2 ++
          [⟨.body, 0, copysize⟩, ⟨.buffer_msg, body_size, body_size⟩]
      if body_size < 0 then (.fault, copies)
      else
        (.message
          { cs with
            memory := cs.memory.move 0 body_size.toNat body_size.toNat
            lastPos := cs.lastPos - body_size }
          body, copies)

/-- Copies of one pass. -/
def copies (cs : ClientSocket) : List Copy :=
  (pass cs).2

/-- The pass does what the loop's body does. -/
theorem pass_fst (cs : ClientSocket) :
    (pass cs).1 = extract cs := by
  rw [pass, extract]
  by_cases hheader : cs.lastPos < MessageBody.HEADER_SIZE
  · rw [if_pos hheader, if_pos hheader]
  · rw [if_neg hheader, if_neg hheader]
    by_cases hlen : cs.getPackageLength < 0
    · rw [packageLength]
      dsimp only
      rw [if_pos hlen, if_pos hlen]
    · rw [packageLength]
      dsimp only
      rw [if_neg hlen, if_neg hlen, apply_ite Prod.fst]

/-- States in which the loop begins a pass. -/
inductive Enters (cs : ClientSocket) : ClientSocket → Prop where
  | first : Enters cs cs
  | next {p q : ClientSocket} {body : MessageBody}
      (before : Enters cs p) (hpass : extract p = .message q body)
      (hmore : ¬ q.lastPos ≤ 0) :
      Enters cs q

/-- The loop ends in a state, after handing on some messages. -/
inductive Leaves :
    ClientSocket → ClientSocket → List MessageBody → Prop where
  | leave {cs : ClientSocket} (hpass : extract cs = .leave) :
      Leaves cs cs []
  | last {cs q : ClientSocket} {body : MessageBody}
      (hpass : extract cs = .message q body) (hdone : q.lastPos ≤ 0) :
      Leaves cs q [body]
  | next {cs q r : ClientSocket} {body : MessageBody}
      {bodies : List MessageBody}
      (hpass : extract cs = .message q body) (hmore : ¬ q.lastPos ≤ 0)
      (rest : Leaves q r bodies) :
      Leaves cs r (body :: bodies)

end Cell

/-- The position is inside the buffer. -/
def ClientSocket.InBuffer (cs : ClientSocket) : Prop :=
  0 ≤ cs.lastPos ∧ cs.lastPos ≤ RECV_BUFFER_SIZE

instance (cs : ClientSocket) : Decidable cs.InBuffer :=
  inferInstanceAs (Decidable (_ ∧ _))

/--
A length field that does no harm: its sum with four does not overflow, and a
message that is there whole takes no more than half of the buffer.
-/
def ClientSocket.Harmless (cs : ClientSocket) : Prop :=
  MessageBody.HEADER_SIZE ≤ cs.lastPos →
    ¬ (2 ^ 31 - 4 ≤ cs.lengthField ∧ cs.lengthField < 2 ^ 31) ∧
      (cs.lengthField + MessageBody.HEADER_LEN_BYTES ≤ cs.lastPos →
        cs.lengthField + MessageBody.HEADER_LEN_BYTES ≤
          RECV_BUFFER_SIZE / 2)

instance (cs : ClientSocket) : Decidable cs.Harmless :=
  inferInstanceAs (Decidable (_ → _))

section Passes

variable {cs : ClientSocket}

theorem ClientSocket.lengthField_lt (cs : ClientSocket) :
    cs.lengthField < 2 ^ 32 :=
  cs.memory.readLE_lt 0 MessageBody.HEADER_LEN_BYTES

theorem getPackageLength_def
    (hheader : ¬ cs.lastPos < MessageBody.HEADER_SIZE) :
    cs.getPackageLength =
      if cs.lastPos ≥ int32 (int32 cs.lengthField + 4)
      then int32 cs.lengthField else -1 := by
  rw [ClientSocket.getPackageLength, if_neg hheader]
  rfl

theorem int32_lengthField (h : cs.lengthField < 2 ^ 31) :
    int32 cs.lengthField = cs.lengthField := by
  apply int32_of_bounds
  · omega
  · omega

theorem int32_lengthField_add (h : cs.lengthField < 2 ^ 31 - 4) :
    int32 ((cs.lengthField : Int) + 4) = cs.lengthField + 4 := by
  apply int32_of_bounds
  · omega
  · omega

/-- A message that is there whole. -/
theorem getPackageLength_whole
    (h : cs.InBuffer) (hheader : ¬ cs.lastPos < MessageBody.HEADER_SIZE)
    (hwhole : (cs.lengthField : Int) + 4 ≤ cs.lastPos) :
    cs.getPackageLength = cs.lengthField := by
  have hhigh := h.2
  simp only [RECV_BUFFER_SIZE] at hhigh
  rw [getPackageLength_def hheader, int32_lengthField (by omega),
    int32_lengthField_add (by omega), if_pos hwhole]

/-- A sum that wraps around is below every position. -/
theorem getPackageLength_wraps
    (h : cs.InBuffer) (hheader : ¬ cs.lastPos < MessageBody.HEADER_SIZE)
    (hwraps : 2 ^ 31 - 4 ≤ cs.lengthField ∧ cs.lengthField < 2 ^ 31) :
    cs.getPackageLength = cs.lengthField ∧
      int32 ((cs.lengthField : Int) + MessageBody.HEADER_LEN_BYTES) =
        cs.lengthField + 4 - 2 ^ 32 := by
  have hlow := h.1
  have hsum : int32 ((cs.lengthField : Int) + 4) =
      cs.lengthField + 4 - 2 ^ 32 := by
    rw [int32]
    omega
  refine ⟨?_, hsum⟩
  rw [getPackageLength_def hheader, int32_lengthField hwraps.2, hsum,
    if_pos (by omega)]

/-- Otherwise the loop is left. -/
theorem getPackageLength_neg
    (h : cs.InBuffer) (hheader : ¬ cs.lastPos < MessageBody.HEADER_SIZE)
    (hwhole : ¬ (cs.lengthField : Int) + 4 ≤ cs.lastPos)
    (hwraps : ¬ (2 ^ 31 - 4 ≤ cs.lengthField ∧ cs.lengthField < 2 ^ 31)) :
    cs.getPackageLength < 0 := by
  have hfield := cs.lengthField_lt
  have hhigh := h.2
  rw [getPackageLength_def hheader]
  rcases Nat.lt_or_ge cs.lengthField (2 ^ 31) with hsmall | hlarge
  · rw [int32_lengthField hsmall, int32_lengthField_add (by omega),
      if_neg hwhole]
    decide
  · have hnegative : int32 cs.lengthField = cs.lengthField - 2 ^ 32 := by
      rw [int32]
      omega
    split_ifs
    · omega
    · decide

/-- The three copies of a pass that takes `count` bytes out of the buffer. -/
def Cell.takeCopies (cs : ClientSocket) (count : Int) : List Copy :=
  [⟨.len, 0, MessageBody.HEADER_LEN_BYTES⟩, ⟨.body, 0, cs.lastPos⟩,
    ⟨.buffer_msg, count, count⟩]

/-- The socket after a message of `size` bytes was taken out. -/
def Cell.taken (cs : ClientSocket) (size : Nat) : ClientSocket :=
  { cs with
    memory := cs.memory.move 0 size size
    lastPos := cs.lastPos - size }

/-- A pass, by the value of the length field. -/
theorem Cell.pass_eq (h : cs.InBuffer) :
    Cell.pass cs =
      if cs.lastPos < MessageBody.HEADER_SIZE then (.leave, [])
      else if (cs.lengthField : Int) + 4 ≤ cs.lastPos then
        (.message (Cell.taken cs (cs.lengthField + 4))
            (MessageBody.ofBytes cs.memory cs.lastPos.toNat),
          Cell.takeCopies cs (cs.lengthField + 4))
      else if 2 ^ 31 - 4 ≤ cs.lengthField ∧ cs.lengthField < 2 ^ 31 then
        (.fault, Cell.takeCopies cs (cs.lengthField + 4 - 2 ^ 32))
      else (.leave, [⟨.len, 0, MessageBody.HEADER_LEN_BYTES⟩]) := by
  have hlow := h.1
  have hhigh := h.2
  simp only [RECV_BUFFER_SIZE] at hhigh
  rw [Cell.pass]
  by_cases hheader : cs.lastPos < MessageBody.HEADER_SIZE
  · rw [if_pos hheader, if_pos hheader]
  rw [if_neg hheader, if_neg hheader, Cell.packageLength, if_neg hheader]
  dsimp only
  have hsize : ¬ (MessageBody.SIZEOF : Int) ≤ cs.lastPos := by
    simp only [MessageBody.SIZEOF]
    omega
  have hpos : (cs.lastPos.toNat : Int) = cs.lastPos := by
    omega
  by_cases hwhole : (cs.lengthField : Int) + 4 ≤ cs.lastPos
  · have hsum : int32 ((cs.lengthField : Int) +
        MessageBody.HEADER_LEN_BYTES) = cs.lengthField + 4 :=
      int32_lengthField_add (by omega)
    have hclamp : ¬ (cs.lengthField : Int) + 4 > cs.lastPos := by
      omega
    have hcount : ((cs.lengthField : Int) + 4).toNat = cs.lengthField + 4 := by
      omega
    rw [if_pos hwhole, getPackageLength_whole h hheader hwhole]
    rw [if_neg (by omega), hsum, if_neg hclamp, if_neg hsize,
      if_neg (by omega), hcount, hpos]
    rfl
  rw [if_neg hwhole]
  by_cases hwraps : 2 ^ 31 - 4 ≤ cs.lengthField ∧ cs.lengthField < 2 ^ 31
  · obtain ⟨hlen, hsum⟩ := getPackageLength_wraps h hheader hwraps
    have hclamp : ¬ (cs.lengthField : Int) + 4 - 2 ^ 32 > cs.lastPos := by
      omega
    rw [if_pos hwraps, hlen, if_neg (by omega), hsum, if_neg hclamp,
      if_neg hsize, if_pos (by omega), hpos]
    rfl
  · have hneg := getPackageLength_neg h hheader hwhole hwraps
    rw [if_neg hwraps, if_pos hneg]

theorem Copy.len_inBounds :
    Copy.InBounds ⟨.len, 0, MessageBody.HEADER_LEN_BYTES⟩ := by
  decide

/-- Moving `count` bytes down reads the next `count` bytes. -/
theorem Cell.takeCopies_inBounds_iff (h : cs.InBuffer) (count : Int) :
    (∀ c ∈ Cell.takeCopies cs count, c.InBounds) ↔
      0 ≤ count ∧ 2 * count ≤ RECV_BUFFER_SIZE := by
  obtain ⟨hlow, hhigh⟩ := h
  have hbody : Copy.InBounds ⟨.body, 0, cs.lastPos⟩ := by
    simp only [Copy.InBounds, CopyTarget.bytes, MessageBody.SIZEOF,
      RECV_BUFFER_SIZE] at hhigh ⊢
    omega
  simp only [Cell.takeCopies, List.forall_mem_cons, Copy.len_inBounds, hbody,
    List.not_mem_nil, false_implies, implies_true, true_and, and_true]
  simp only [Copy.InBounds, CopyTarget.bytes]
  omega

/-- The copies of a pass are in bounds exactly when the length is harmless. -/
theorem Cell.copies_inBounds_iff (h : cs.InBuffer) :
    (∀ c ∈ Cell.copies cs, c.InBounds) ↔ cs.Harmless := by
  have hhigh := h.2
  simp only [RECV_BUFFER_SIZE] at hhigh
  rw [Cell.copies, Cell.pass_eq h, ClientSocket.Harmless]
  simp only [MessageBody.HEADER_LEN_BYTES, RECV_BUFFER_SIZE]
  split_ifs with hheader hwhole hwraps
  · simp only [List.not_mem_nil, false_implies, implies_true, true_iff]
    omega
  · rw [Cell.takeCopies_inBounds_iff h, RECV_BUFFER_SIZE]
    omega
  · rw [Cell.takeCopies_inBounds_iff h]
    omega
  · constructor
    · intro _ _
      omega
    · rintro - c hc
      rw [List.mem_singleton.mp hc]
      exact Copy.len_inBounds

/-- A pass that takes a message out shortens the buffer by its four bytes or more. -/
theorem Cell.extract_message
    (h : cs.InBuffer) {q : ClientSocket} {body : MessageBody}
    (hpass : Cell.extract cs = .message q body) :
    MessageBody.HEADER_SIZE ≤ cs.lastPos ∧
      (cs.lengthField : Int) + 4 ≤ cs.lastPos ∧
      q = Cell.taken cs (cs.lengthField + 4) ∧
      body = MessageBody.ofBytes cs.memory cs.lastPos.toNat := by
  rw [← Cell.pass_fst, Cell.pass_eq h] at hpass
  split_ifs at hpass with hheader hwhole hwraps
  cases hpass
  exact ⟨Int.not_lt.mp hheader, hwhole, rfl, rfl⟩

/-- A harmless pass does not fault. -/
theorem Cell.extract_ne_fault (h : cs.InBuffer) (hsafe : cs.Harmless) :
    Cell.extract cs ≠ .fault := by
  rw [← Cell.pass_fst, Cell.pass_eq h]
  split_ifs with hheader hwhole hwraps <;> try simp
  exact (hsafe (by omega)).1 hwraps

/-- A pass leaves the position inside the buffer. -/
theorem Cell.extract_inBuffer
    (h : cs.InBuffer) {q : ClientSocket} {body : MessageBody}
    (hpass : Cell.extract cs = .message q body) :
    q.InBuffer ∧ q.lastPos < cs.lastPos := by
  obtain ⟨hlow, hhigh⟩ := h
  obtain ⟨-, hwhole, rfl, -⟩ := Cell.extract_message ⟨hlow, hhigh⟩ hpass
  have hpos : (Cell.taken cs (cs.lengthField + 4)).lastPos =
      cs.lastPos - (cs.lengthField + 4) := by
    rfl
  rw [ClientSocket.InBuffer, hpos]
  omega

/-- Every pass begins with the position inside the buffer. -/
theorem Cell.Enters.inBuffer
    (h : cs.InBuffer) {p : ClientSocket} (henters : Cell.Enters cs p) :
    p.InBuffer := by
  induction henters with
  | first =>
      exact h
  | next before hpass hmore ih =>
      exact (Cell.extract_inBuffer ih hpass).1

/-- What the loop enters after its first pass. -/
theorem Cell.Enters.of_extract
    {p q : ClientSocket} {body : MessageBody}
    (hpass : Cell.extract cs = .message q body) (hmore : ¬ q.lastPos ≤ 0)
    (henters : Cell.Enters q p) :
    Cell.Enters cs p := by
  induction henters with
  | first =>
      exact Cell.Enters.next .first hpass hmore
  | next before hpass' hmore' ih =>
      exact Cell.Enters.next ih hpass' hmore'

/-- The loop leaves the position inside the buffer. -/
theorem Cell.Leaves.inBuffer
    {r : ClientSocket} {bodies : List MessageBody}
    (hleaves : Cell.Leaves cs r bodies) (h : cs.InBuffer) :
    r.InBuffer := by
  induction hleaves with
  | leave hpass =>
      exact h
  | last hpass hdone =>
      exact (Cell.extract_inBuffer h hpass).1
  | next hpass hmore rest ih =>
      exact ih (Cell.extract_inBuffer h hpass).1

/-- A loop whose passes are harmless ends. -/
theorem Cell.leaves_of_harmless
    {n : Nat} (hn : cs.lastPos.toNat ≤ n) (h : cs.InBuffer)
    (hsafe : ∀ p, Cell.Enters cs p → p.Harmless) :
    ∃ r bodies, Cell.Leaves cs r bodies := by
  induction n generalizing cs with
  | zero =>
      refine ⟨cs, [], Cell.Leaves.leave ?_⟩
      have hlow := h.1
      rw [Cell.extract, if_pos]
      simp only [MessageBody.HEADER_SIZE, MessageBody.HEADER_LEN_BYTES]
      omega
  | succ n ih =>
      cases hpass : Cell.extract cs with
      | leave =>
          exact ⟨cs, [], Cell.Leaves.leave hpass⟩
      | fault =>
          exact absurd hpass (Cell.extract_ne_fault h (hsafe cs .first))
      | message q body =>
          obtain ⟨hq, hless⟩ := Cell.extract_inBuffer h hpass
          by_cases hdone : q.lastPos ≤ 0
          · exact ⟨q, [body], Cell.Leaves.last hpass hdone⟩
          · obtain ⟨r, bodies, hleaves⟩ := ih (by omega) hq
              (fun p henters => hsafe p (henters.of_extract hpass hdone))
            exact ⟨r, body :: bodies,
              Cell.Leaves.next hpass hdone hleaves⟩

/-- The rounds of the fuelled loop are enough. -/
theorem Cell.Leaves.recvLoop_eq
    {r : ClientSocket} {bodies : List MessageBody}
    (hleaves : Cell.Leaves cs r bodies) (h : cs.InBuffer)
    {fuel : Nat} (hfuel : cs.lastPos.toNat ≤ fuel) (hpos : 0 < cs.lastPos) :
    Cell.recvLoop fuel cs = some (r, bodies) := by
  induction hleaves generalizing fuel with
  | leave hpass =>
      obtain ⟨fuel, rfl⟩ : ∃ k, fuel = k + 1 :=
        Nat.exists_eq_add_one.mpr (by omega)
      rw [Cell.recvLoop, hpass]
  | last hpass hdone =>
      obtain ⟨fuel, rfl⟩ : ∃ k, fuel = k + 1 :=
        Nat.exists_eq_add_one.mpr (by omega)
      rw [Cell.recvLoop, hpass]
      simp [hdone]
  | next hpass hmore rest ih =>
      obtain ⟨fuel, rfl⟩ : ∃ k, fuel = k + 1 :=
        Nat.exists_eq_add_one.mpr (by omega)
      obtain ⟨hq, hless⟩ := Cell.extract_inBuffer h hpass
      have hrest : Cell.recvLoop fuel _ = some (_, _) :=
        ih hq (by omega) (by omega)
      rw [Cell.recvLoop, hpass]
      simp [hmore, hrest]

/-- What the fuelled loop returns is what the loop leaves. -/
theorem Cell.Leaves.of_recvLoop
    {fuel : Nat} {r : ClientSocket} {bodies : List MessageBody}
    (h : cs.InBuffer) (hfuel : cs.lastPos.toNat ≤ fuel)
    (hpos : 0 < cs.lastPos)
    (hloop : Cell.recvLoop fuel cs = some (r, bodies)) :
    Cell.Leaves cs r bodies := by
  induction fuel generalizing cs r bodies with
  | zero =>
      omega
  | succ fuel ih =>
      rw [Cell.recvLoop] at hloop
      cases hpass : Cell.extract cs with
      | leave =>
          rw [hpass] at hloop
          cases hloop
          exact Cell.Leaves.leave hpass
      | fault =>
          rw [hpass] at hloop
          cases hloop
      | message q body =>
          obtain ⟨hq, hless⟩ := Cell.extract_inBuffer h hpass
          rw [hpass] at hloop
          dsimp only at hloop
          by_cases hdone : q.lastPos ≤ 0
          · rw [if_pos hdone] at hloop
            cases hloop
            exact Cell.Leaves.last hpass hdone
          · rw [if_neg hdone] at hloop
            cases hrest : Cell.recvLoop fuel q with
            | none =>
                rw [hrest] at hloop
                cases hloop
            | some rest =>
                rw [hrest] at hloop
                cases hloop
                exact Cell.Leaves.next hpass hdone
                  (ih hq (by omega) (by omega) hrest)

/-- The buffer behind which `recv` stored some bytes. -/
def Cell.stored (cs : ClientSocket) (bytes : List UInt8) : ClientSocket :=
  { cs with
    memory := cs.memory.store cs.lastPos.toNat bytes
    lastPos := cs.lastPos + bytes.length }

/-- `Cell::Recv` returns, without a bound on the rounds of its loop. -/
inductive Cell.Returns (cs : ClientSocket) (bytes : List UInt8) :
    RecvOutcome → Prop where
  | closed (hempty : bytes = []) :
      Returns cs bytes ⟨-1, Cell.stored cs bytes, []⟩
  | loop {r : ClientSocket} {bodies : List MessageBody}
      (hne : bytes ≠ []) (hleaves : Cell.Leaves (Cell.stored cs bytes) r bodies) :
      Returns cs bytes ⟨bytes.length, r, bodies⟩

theorem Cell.stored_inBuffer
    {bytes : List UInt8} (h : cs.InBuffer)
    (hroom : cs.lastPos + bytes.length ≤ RECV_BUFFER_SIZE) :
    (Cell.stored cs bytes).InBuffer := by
  obtain ⟨hlow, hhigh⟩ := h
  constructor
  · show 0 ≤ cs.lastPos + bytes.length
    omega
  · exact hroom

/-- `Cell::Recv` stores what it received and runs the loop. -/
theorem Cell.recv_eq_map
    (cs : ClientSocket) {bytes : List UInt8} (hne : bytes ≠ []) :
    Cell.recv cs (some bytes) =
      (Cell.recvLoop (Cell.stored cs bytes).lastPos.toNat
        (Cell.stored cs bytes)).map
          (fun left => ⟨bytes.length, left.1, left.2⟩) := by
  have hpos : 0 < bytes.length := List.length_pos_iff.mpr hne
  have hlast : cs.lastPos + bytes.length =
      (Cell.stored cs bytes).lastPos := rfl
  rw [Cell.recv]
  dsimp only
  rw [if_neg (by omega), ← Cell.stored, hlast]
  cases Cell.recvLoop (Cell.stored cs bytes).lastPos.toNat
      (Cell.stored cs bytes) with
  | none =>
      rfl
  | some left =>
      rfl

/-- The model of `Cell::Recv` with a bound on the rounds agrees. -/
theorem Cell.Returns.recv_eq
    {bytes : List UInt8} {out : RecvOutcome}
    (hreturns : Cell.Returns cs bytes out) (h : cs.InBuffer)
    (hroom : cs.lastPos + bytes.length ≤ RECV_BUFFER_SIZE) :
    Cell.recv cs (some bytes) = some out := by
  have hbuffer := Cell.stored_inBuffer h hroom
  cases hreturns with
  | closed hempty =>
      subst hempty
      rfl
  | loop hne hleaves =>
      have hpos : 0 < bytes.length := List.length_pos_iff.mpr hne
      have hlow := h.1
      have hloop := hleaves.recvLoop_eq hbuffer (Nat.le_refl _)
        (show 0 < cs.lastPos + bytes.length by omega)
      rw [Cell.recv_eq_map cs hne, hloop]
      rfl

end Passes

/--
A call of `Cell::Recv` is safe: it returns, every `memcpy` and `memmove` is in
bounds, and the position is inside the buffer when it returns a positive value.
-/
structure RecvSafe (cs : ClientSocket) (bytes : List UInt8) : Prop where
  returns : ∃ out, Cell.Returns cs bytes out ∧
    (0 < out.ret → out.client.InBuffer)
  copies : bytes ≠ [] → ∀ p, Cell.Enters (Cell.stored cs bytes) p →
    ∀ c ∈ Cell.copies p, c.InBounds

/-- A call is safe exactly when each pass finds a harmless length field. -/
theorem recvSafe_iff
    (cs : ClientSocket) (bytes : List UInt8)
    (h : 0 ≤ cs.lastPos ∧ cs.lastPos ≤ RECV_BUFFER_SIZE)
    (hroom : cs.lastPos + bytes.length ≤ RECV_BUFFER_SIZE) :
    RecvSafe cs bytes ↔
      (bytes ≠ [] → ∀ p, Cell.Enters (Cell.stored cs bytes) p →
        p.Harmless) := by
  have hbuffer := Cell.stored_inBuffer h hroom
  constructor
  · intro hsafe hne p henters
    exact (Cell.copies_inBounds_iff (henters.inBuffer hbuffer)).mp
      (hsafe.copies hne p henters)
  · intro hharmless
    constructor
    · by_cases hne : bytes = []
      · refine ⟨_, Cell.Returns.closed hne, ?_⟩
        intro hret
        exact absurd hret (show ¬ (0 : Int) < -1 by decide)
      · obtain ⟨r, bodies, hleaves⟩ :=
          Cell.leaves_of_harmless (Nat.le_refl _) hbuffer (hharmless hne)
        exact ⟨_, Cell.Returns.loop hne hleaves,
          fun _ => hleaves.inBuffer hbuffer⟩
    · intro hne p henters
      exact (Cell.copies_inBounds_iff (henters.inBuffer hbuffer)).mpr
        (hharmless hne p henters)

/-- A loop whose first pass empties the buffer has no other pass. -/
theorem Cell.Enters.eq_of_done
    {cs p : ClientSocket} (henters : Cell.Enters cs p)
    (hdone : ∀ q body, Cell.extract cs = .message q body →
      q.lastPos ≤ 0) :
    p = cs := by
  induction henters with
  | first =>
      rfl
  | next before hpass hmore ih =>
      rw [ih] at hpass
      exact absurd (hdone _ _ hpass) hmore

/-- A message without a payload, alone in its chunk. -/
theorem recvSafe_short_frame :
    RecvSafe freshSocket [2, 0, 0, 0, 1, 0] := by
  apply (recvSafe_iff freshSocket [2, 0, 0, 0, 1, 0] (by decide)
    (by decide)).mpr
  intro _ p henters
  have hfield : (Cell.stored freshSocket [2, 0, 0, 0, 1, 0]).lengthField =
      2 := by
    decide
  rw [henters.eq_of_done]
  · rw [ClientSocket.Harmless, hfield]
    decide
  · intro q body hpass
    obtain ⟨-, -, rfl, -⟩ := Cell.extract_message (by decide) hpass
    rw [hfield]
    decide

/-- A length of `INT_MAX` gives the `memmove` a negative size. -/
theorem recv_not_safe :
    ¬ ∀ (cs : ClientSocket) (bytes : List UInt8),
        0 ≤ cs.lastPos ∧ cs.lastPos ≤ RECV_BUFFER_SIZE →
        cs.lastPos + bytes.length ≤ RECV_BUFFER_SIZE →
        RecvSafe cs bytes := by
  intro h
  have hsafe := h freshSocket [255, 255, 255, 127, 0, 0] (by decide)
    (by decide)
  have hcopies := hsafe.copies (by decide) _ .first
  rw [Cell.copies_inBounds_iff (by decide)] at hcopies
  exact absurd hcopies (by decide)

end Net
end NetEngine
