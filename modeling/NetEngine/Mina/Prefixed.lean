import NetEngine.Mina.Contents

/-!
# Strings with a length in front

`PutPrefixedString` checks the length of the string in characters and writes its
length in bytes, cut to the prefix.  `GetPrefixedString` takes as many bytes as
the cut length says; the others are left in the buffer.
-/

namespace NetEngine
namespace Mina

open Net

namespace Op

variable {o : ByteOrder} {xs bs rest : List UInt8} {v : View}
variable {k : Int} {n : Nat} {value : Text} {encoding : Encoding}

section Lengths

/-- What is left of a length in a prefix of `k` bytes. -/
def cutLength (k : Int) (n : Nat) : Nat :=
  n % 256 ^ k.toNat

/-- The bytes of the prefix. -/
def prefixBytes (o : ByteOrder) (k : Int) (n : Nat) : List UInt8 :=
  if k = 1 then [UInt8.ofNat n]
  else if k = 2 then bytesOf o 2 (BitVec.ofNat 16 n)
  else bytesOf o 4 (BitVec.ofNat 32 n)

theorem cutLength_le (k : Int) (n : Nat) : cutLength k n ≤ n :=
  Nat.mod_le _ _

theorem cutLength_one (n : Nat) :
    (((UInt8.ofNat n).toNat : Nat) : Int) = cutLength 1 n := by
  rw [UInt8.toNat_ofNat']
  rfl

theorem cutLength_two (n : Nat) :
    (((BitVec.ofNat 16 n).toNat : Nat) : Int) = cutLength 2 n := by
  rw [BitVec.toNat_ofNat]
  rfl

theorem cutLength_four (hn : n < 2 ^ 31) :
    (BitVec.ofNat 32 n).toInt = cutLength 4 n := by
  have hnat : (BitVec.ofNat 32 n).toNat = n := by
    rw [BitVec.toNat_ofNat]
    omega
  have hcut : cutLength 4 n = n := by
    show n % 256 ^ 4 = n
    omega
  rw [BitVec.toInt_eq_toNat_of_lt (by omega), hnat, hcut]

/-- The lengths that a prefix may have. -/
theorem maxLength_isSome {m : Nat} (h : maxLength k = some m) :
    k = 1 ∨ k = 2 ∨ k = 4 := by
  unfold maxLength at h
  split_ifs at h with h₁ h₂ h₄
  · exact .inl h₁
  · exact .inr (.inl h₂)
  · exact .inr (.inr h₄)

theorem length_prefixBytes (hk : k = 1 ∨ k = 2 ∨ k = 4) (o : ByteOrder)
    (n : Nat) : ((prefixBytes o k n).length : Int) = k := by
  rcases hk with rfl | rfl | rfl
  · rfl
  · exact congrArg _ (bytesOf_length o 2 _)
  · exact congrArg _ (bytesOf_length o 4 _)

end Lengths

section Putting

theorem putPrefix_wrote (k : Int) (n : Nat) :
    (contract true).Keeps (Wrote o xs) (putPrefix k n)
      (fun _ => Wrote o (xs ++ prefixBytes o k n)) := by
  unfold putPrefix prefixBytes
  split_ifs
  · exact put_wrote _
  · exact putWord_wrote 2 _
  · exact putWord_wrote 4 _

theorem putPrefixedString_wrote (hne : value ≠ []) :
    (contract true).Keeps (Wrote o xs) (putPrefixedString value k encoding)
      (fun _ => Wrote o (xs ++
        (prefixBytes o k (encoding.getBytes value).length ++
          encoding.getBytes value))) := by
  unfold putPrefixedString
  cases maxLength k with
  | none =>
      exact Contract.Keeps.throw (e := BufferException.argument _ _) nofun
  | some m =>
      refine Contract.Keeps.ite (fun _ => .throw nofun) (fun _ => ?_)
      refine Contract.Keeps.ite
        (fun hzero => absurd (List.length_eq_zero_iff.mp hzero) hne)
        (fun _ => ?_)
      refine (putPrefix_wrote k _).bind (fun _ => ?_)
      rw [← List.append_assoc]
      exact putBytes_wrote (encoding.getBytes_length value)

theorem putPrefix_ok
    (hk : k = 1 ∨ k = 2 ∨ k = 4) {m : Nat} (h : Accepts (k.toNat + m) v)
    (n : Nat) : ∃ w, putPrefix k n v = .ok () w ∧ Accepts m w := by
  rcases hk with rfl | rfl | rfl
  · exact put_ok h _
  · exact putWord_ok h _
  · exact putWord_ok h _

theorem putPrefixedString_ok
    (hne : value ≠ []) {m : Nat} (hm : maxLength k = some m)
    (hshort : value.length ≤ m)
    (h : Accepts (k.toNat + (encoding.getBytes value).length) v) :
    ∃ w, putPrefixedString value k encoding v = .ok () w := by
  obtain ⟨w, hprefix, hw⟩ := putPrefix_ok (maxLength_isSome hm) h
    (encoding.getBytes value).length
  obtain ⟨t, hbytes, -⟩ := @putBytes_ok (encoding.getBytes value) w 0 hw
    (encoding.getBytes_length value)
  refine ⟨t, ?_⟩
  unfold putPrefixedString
  rw [hm]
  dsimp only
  rw [if_neg (not_lt.mpr hshort),
    if_neg (fun hzero => hne (List.length_eq_zero_iff.mp hzero)),
    Fallible.bind_ok hprefix, hbytes]

end Putting

section Getting

/-- The word that `GetInt16` and `GetInt32` look at. -/
theorem Reads.wordAt
    {w : Nat} {x : BitVec (8 * w)} (h : Reads o (bytesOf o w x ++ rest) v) :
    Op.getWordAt w v.buf.position v = .ok x v := by
  have hword := h.getWordAt
  rwa [bytesOf_length, wordOf_bytesOf] at hword

theorem Reads.word
    {w : Nat} {x : BitVec (8 * w)} (h : Reads o (bytesOf o w x ++ rest) v) :
    ∃ v', Op.getWord w v = .ok x v' ∧ Reads o rest v' := by
  obtain ⟨v', hword, hrest⟩ := h.getWord
  rw [bytesOf_length, wordOf_bytesOf] at hword
  exact ⟨v', hword, hrest⟩

theorem prefixAt_reads
    (hk : k = 1 ∨ k = 2 ∨ k = 4) (hn : n < 2 ^ 31)
    (h : Reads o (prefixBytes o k n ++ rest) v) :
    prefixAt k v = .ok (cutLength k n) v := by
  rcases hk with rfl | rfl | rfl
  · have hget := Reads.getAt h
    rw [prefixAt, Fallible.get_bind, if_pos rfl, Fallible.bind_ok hget,
      cutLength_one]
    rfl
  · have hget := @Reads.wordAt o rest v 2 (BitVec.ofNat 16 n) h
    rw [prefixAt, Fallible.get_bind, if_neg (by decide), if_pos rfl,
      Fallible.bind_ok hget, ← cutLength_two]
    rfl
  · have hget := @Reads.wordAt o rest v 4 (BitVec.ofNat 32 n) h
    rw [prefixAt, Fallible.get_bind, if_neg (by decide),
      if_neg (by decide), if_pos rfl, Fallible.bind_ok hget,
      ← cutLength_four hn]
    rfl

theorem takePrefix_reads
    (hk : k = 1 ∨ k = 2 ∨ k = 4) (hn : n < 2 ^ 31)
    (h : Reads o (prefixBytes o k n ++ rest) v) :
    ∃ v', takePrefix k v = .ok (cutLength k n) v' ∧ Reads o rest v' := by
  rcases hk with rfl | rfl | rfl
  · obtain ⟨v', hget, hrest⟩ := Reads.get h
    refine ⟨v', ?_, hrest⟩
    rw [takePrefix, if_pos rfl, Fallible.bind_ok hget, ← cutLength_one]
    rfl
  · obtain ⟨v', hget, hrest⟩ := @Reads.word o rest v 2 (BitVec.ofNat 16 n) h
    refine ⟨v', ?_, hrest⟩
    rw [takePrefix, if_neg (by decide), if_pos rfl, getInt16,
      Fallible.bind_ok hget, ← cutLength_two]
    rfl
  · obtain ⟨v', hget, hrest⟩ := @Reads.word o rest v 4 (BitVec.ofNat 32 n) h
    refine ⟨v', ?_, hrest⟩
    rw [takePrefix, if_neg (by decide), if_neg (by decide), if_pos rfl,
      getInt32, Fallible.bind_ok hget, ← cutLength_four hn]
    rfl

/-- All the bytes that the prefix asks for are there. -/
theorem prefixedDataAvailable_reads
    (hk : k = 1 ∨ k = 2 ∨ k = 4) (hn : n < 2 ^ 31)
    (hle : cutLength k n ≤ rest.length)
    (h : Reads o (prefixBytes o k n ++ rest) v) :
    prefixedDataAvailable k (2 ^ 31 - 1) v = .ok true v := by
  have hrem := h.remaining
  have hlength := length_prefixBytes hk o n
  have hcut := cutLength_le k n
  rw [List.length_append] at hrem
  rw [prefixedDataAvailable, Fallible.get_bind, if_neg (by omega),
    Fallible.bind_ok (prefixAt_reads hk hn h), if_neg (by omega)]
  have henough : v.buf.remaining - k ≥ cutLength k n := by
    omega
  show EStateM.Result.ok (decide _) v = _
  rw [decide_eq_true henough]

/-- The string of the bytes that the cut length covers. -/
theorem getPrefixedString_reads
    (hk : k = 1 ∨ k = 2 ∨ k = 4) (hlt : bs.length < 2 ^ 31)
    (h : Reads o (prefixBytes o k bs.length ++ bs) v) :
    ∃ v', getPrefixedString k encoding v =
        .ok (if cutLength k bs.length = 0 then []
          else encoding.getString (bs.take (cutLength k bs.length))) v' ∧
      v'.unread = bs.drop (cutLength k bs.length) := by
  have hcut := cutLength_le k bs.length
  obtain ⟨v', htake, hrest⟩ := takePrefix_reads hk hlt h
  have havailable := prefixedDataAvailable_reads hk hlt hcut h
  by_cases hzero : cutLength k bs.length = 0
  · refine ⟨v', ?_, ?_⟩
    · rw [getPrefixedString, Fallible.bind_ok havailable,
        if_neg (by decide), Fallible.bind_ok htake, hzero, if_pos rfl,
        if_pos Nat.cast_zero]
      rfl
    · rw [hrest.unread, hzero, List.drop_zero]
  · have hcount : (bs.take (cutLength k bs.length)).length =
        cutLength k bs.length := by
      rw [List.length_take]
      omega
    rw [← List.take_append_drop (cutLength k bs.length) bs] at hrest
    obtain ⟨dst, t, hget, hlength, hcells, hend⟩ :=
      hrest.getArray (by omega)
    rw [hcount] at hget hlength hcells
    refine ⟨t, ?_, hend.unread⟩
    rw [getPrefixedString, Fallible.bind_ok havailable,
      if_neg (by decide), Fallible.bind_ok htake,
      if_neg (by exact_mod_cast hzero), if_neg hzero,
      Fallible.bind_ok hget, hlength, hcells]
    rfl

/--
A string that is put with a prefix and got after `Flip` is made of the bytes
that the cut length covers, and the others are left.
-/
theorem getPrefixedString_putPrefixedString
    (hstart : v.buf.position = 0) (hne : value ≠ []) {m : Nat}
    (hm : maxLength k = some m) (hshort : value.length ≤ m)
    (h : Accepts (k.toNat + (encoding.getBytes value).length) v) :
    ∃ w t, putPrefixedString value k encoding v = .ok () w ∧
      (do flip; getPrefixedString k encoding) w =
        .ok (if cutLength k (encoding.getBytes value).length = 0 then []
          else encoding.getString ((encoding.getBytes value).take
            (cutLength k (encoding.getBytes value).length))) t ∧
      t.unread = (encoding.getBytes value).drop
        (cutLength k (encoding.getBytes value).length) := by
  have hempty : Wrote v.buf.order [] v := ⟨hstart, rfl, List.nil_prefix⟩
  obtain ⟨w, hput⟩ := putPrefixedString_ok hne hm hshort h
  obtain ⟨hw, -, hwrote⟩ :=
    (putPrefixedString_wrote hne).returned h.valid hempty hput
  rw [List.nil_append] at hwrote
  obtain ⟨w', hflip, hreads⟩ := flip_reads hw hwrote
  obtain ⟨t, hget, hleft⟩ := getPrefixedString_reads (maxLength_isSome hm)
    (encoding.getBytes_length value) hreads
  refine ⟨w, t, hput, ?_, hleft⟩
  rw [Fallible.bind_ok hflip]
  exact hget

/-- UTF-16, the lower byte first. -/
def unicodeString : List UInt8 → Text
  | low :: high :: bs =>
      (low.toUInt16 ||| high.toUInt16 <<< 8) :: unicodeString bs
  | _ => []

def unicode : Encoding where
  utf16 := true
  getBytes s :=
    (s.flatMap (fun c : UInt16 => [c.toUInt8, (c >>> 8).toUInt8])).take
      (2 ^ 31 - 1)
  getString := unicodeString
  getBytes_length := by
    intro s
    rw [List.length_take]
    omega

theorem length_unicode (s : Text) :
    (unicode.getBytes s).length = min (2 ^ 31 - 1) (2 * s.length) := by
  simp [unicode, List.length_flatMap, Nat.mul_comm]

/-- 128 characters are no more than 255, and their 256 bytes are cut to none. -/
theorem getPrefixedString_putPrefixedString_cut :
    ∃ w t, putPrefixedString (List.replicate 128 65) 1 unicode expanding =
        .ok () w ∧
      (do flip; getPrefixedString 1 unicode) w = .ok [] t ∧
      t.unread.length = 256 := by
  have hlength : (unicode.getBytes (List.replicate 128 65)).length = 256 := by
    rw [length_unicode, List.length_replicate]
    rfl
  have hcut : cutLength 1 256 = 0 := rfl
  have haccepts : Accepts ((1 : Int).toNat +
      (unicode.getBytes (List.replicate 128 65)).length) expanding :=
    ⟨expanding_valid, rfl, .inr ⟨rfl, rfl, by rw [hlength]; decide⟩⟩
  obtain ⟨w, t, hput, hget, hleft⟩ :=
    @getPrefixedString_putPrefixedString expanding 1 (List.replicate 128 65)
      unicode rfl (by simp) 255 rfl (by simp) haccepts
  rw [hlength, hcut] at hget hleft
  rw [if_pos rfl] at hget
  refine ⟨w, t, hput, hget, ?_⟩
  rw [hleft, List.drop_zero, hlength]

end Getting

end Op

end Mina
end NetEngine
