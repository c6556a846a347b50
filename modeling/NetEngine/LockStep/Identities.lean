import NetEngine.LockStep.LoginBook

/-!
# Identities of players

While fewer than 2^32 logins are accepted the UUIDs count them: the login that
is accepted as the n-th gives its player the UUID n, whoever joined, left or
sent a login again before.  A non-zero UUID then names one player of the whole
run, also after that player has left and its socket number is somebody else's,
and a player who has one keeps it.

Players are told apart by the book, as the numbers of their joins.
-/

namespace NetEngine
namespace LockStep

open Net

section Holding

/-- After a list of events the `n`-th player to join is in the world as `p`. -/
def Plays (codec : Codec) (events : List WorldEvent) (n : Nat)
    (p : Player) : Prop :=
  ∃ fd, (World.run codec events).1.getUser fd = some p ∧
    (book (World.run codec events).2).holder fd = n

variable {codec : Codec} {events : List WorldEvent}

/-- A UUID is the position of the player's login. -/
theorem uuid_toNat
    (hlen : (book (World.run codec events).2).loggers.length < 2 ^ 32)
    {before : List WorldEvent} (hbefore : before <+: events)
    {fd : SOCKET} {p : Player}
    (hfind : (World.run codec before).1.getUser fd = some p) :
    p.UUID.toNat = (book (World.run codec before).2).number fd := by
  have hknows := (bookInv_run codec before).knows fd p hfind
  have hgrow := (loggers_prefix_run codec hbefore).length_le
  have hlt := (hknows.le_length.trans hgrow).trans_lt hlen
  rw [hknows.uuid]
  exact UInt32.toNat_ofNat_of_lt' hlt

/-- A player with a UUID stands at that place in the list of all logins. -/
theorem Plays.logger
    (hlen : (book (World.run codec events).2).loggers.length < 2 ^ 32)
    {before : List WorldEvent} (hbefore : before <+: events)
    {n : Nat} {p : Player} (h : Plays codec before n p)
    (huuid : p.UUID ≠ 0) :
    (book (World.run codec events).2).loggers[p.UUID.toNat - 1]? =
      some n := by
  obtain ⟨fd, hfind, hholder⟩ := h
  have hknows := (bookInv_run codec before).knows fd p hfind
  have hnat := uuid_toNat hlen hbefore hfind
  have hnumber : (book (World.run codec before).2).number fd ≠ 0 := by
    rw [← hnat]
    intro hzero
    exact huuid (UInt32.toNat_inj.mp hzero)
  have hplace := hknows.logger hnumber
  rw [hholder, ← hnat] at hplace
  obtain ⟨hlt, -⟩ := List.getElem?_eq_some_iff.mp hplace
  obtain ⟨rest, hrest⟩ := loggers_prefix_run codec hbefore
  rw [← hrest, List.getElem?_append_left hlt]
  exact hplace

/-- Two players with one UUID are one player. -/
theorem Plays.eq_of_uuid
    (hlen : (book (World.run codec events).2).loggers.length < 2 ^ 32)
    {before₁ before₂ : List WorldEvent}
    (hbefore₁ : before₁ <+: events) (hbefore₂ : before₂ <+: events)
    {n₁ n₂ : Nat} {p₁ p₂ : Player}
    (h₁ : Plays codec before₁ n₁ p₁) (h₂ : Plays codec before₂ n₂ p₂)
    (hsame : p₁.UUID = p₂.UUID) (huuid : p₁.UUID ≠ 0) :
    n₁ = n₂ := by
  have hplace₁ := h₁.logger hlen hbefore₁ huuid
  have hplace₂ := h₂.logger hlen hbefore₂ (hsame ▸ huuid)
  rw [hsame, hplace₂] at hplace₁
  cases hplace₁
  rfl

/-- A player keeps the UUID it was given. -/
theorem Plays.uuid_eq
    (hlen : (book (World.run codec events).2).loggers.length < 2 ^ 32)
    {before₁ before₂ : List WorldEvent}
    (hbefore : before₁ <+: before₂) (hbefore₂ : before₂ <+: events)
    {n : Nat} {p₁ p₂ : Player}
    (h₁ : Plays codec before₁ n p₁) (h₂ : Plays codec before₂ n p₂)
    (huuid : p₁.UUID ≠ 0) :
    p₂.UUID = p₁.UUID := by
  have hlen₂ :=
    (loggers_prefix_run codec hbefore₂).length_le.trans_lt hlen
  have hplace₁ := h₁.logger hlen₂ hbefore huuid
  have hinv := bookInv_run codec before₂
  -- the player is listed, so it cannot be waiting for its login
  have huuid₂ : p₂.UUID ≠ 0 := by
    intro hzero
    obtain ⟨fd, hfind, hholder⟩ := h₂
    refine hinv.not_mem_loggers hlen₂ hfind hzero ?_
    rw [hholder]
    exact List.mem_of_getElem? hplace₁
  have hplace₂ := h₂.logger hlen₂ (List.prefix_refl _) huuid₂
  -- and it is listed once
  obtain ⟨hlt₁, -⟩ := List.getElem?_eq_some_iff.mp hplace₁
  have hindex := (List.getElem?_inj hlt₁ (hinv.once hlen₂)).mp
    (hplace₁.trans hplace₂.symm)
  have hne₁ : p₁.UUID.toNat ≠ 0 := fun h => huuid (UInt32.toNat_inj.mp h)
  have hne₂ : p₂.UUID.toNat ≠ 0 := fun h => huuid₂ (UInt32.toNat_inj.mp h)
  apply UInt32.toNat_inj.mp
  omega

end Holding

section Rejections

/-- A login is refused when it cannot be parsed or comes a second time. -/
theorem handleLogin_ret_eq_false_iff
    (codec : Codec) (w : World) (fd : SOCKET) (player : Player)
    (msg : MessageBody) :
    (w.handleLogin codec fd player msg).ret = false ↔
      ¬ codec.parseCSLogin msg.data (payloadSize msg) ∨
        player.UUID ≠ 0 := by
  unfold World.handleLogin
  split_ifs with hparse huuid
  · exact ⟨fun _ => Or.inr huuid, fun _ => rfl⟩
  · have hnot := not_or.mpr ⟨not_not.mpr hparse, huuid⟩
    exact ⟨fun h => h.elim, fun h => hnot h⟩
  · exact ⟨fun _ => Or.inl hparse, fun _ => rfl⟩

/-- A refused login does nothing. -/
theorem handleLogin_refused
    {codec : Codec} {w : World} {fd : SOCKET} {player : Player}
    {msg : MessageBody}
    (h : (w.handleLogin codec fd player msg).ret = false) :
    w.handleLogin codec fd player msg = ⟨false, w, []⟩ := by
  unfold World.handleLogin at h ⊢
  split_ifs at h ⊢
  · rfl
  · rfl

end Rejections

section Stability

/-- What a run does with the identities of its players. -/
structure StableIdentities (codec : Codec)
    (events : List WorldEvent) : Prop where
  /-- The logins that succeed, and what else is accepted, are those that the
  events call for. -/
  received :
    acceptances (World.run codec events).2 = Reception.accepted codec events
  /-- The players were told 1, 2, 3 and so on. -/
  numbered :
    (loginUuids (World.run codec events).2).map UInt32.toNat =
      List.range' 1 (book (World.run codec events).2).loggers.length
  /-- The UUID stored is that of the player's own login. -/
  assigned : ∀ before, before <+: events → ∀ fd p,
    (World.run codec before).1.getUser fd = some p →
      p.UUID.toNat = (book (World.run codec before).2).number fd
  unique : ∀ before₁ before₂, before₁ <+: events → before₂ <+: events →
    ∀ n₁ n₂ p₁ p₂,
      Plays codec before₁ n₁ p₁ → Plays codec before₂ n₂ p₂ →
        p₁.UUID = p₂.UUID → p₁.UUID ≠ 0 → n₁ = n₂
  stable : ∀ before₁ before₂, before₁ <+: before₂ → before₂ <+: events →
    ∀ n p₁ p₂,
      Plays codec before₁ n p₁ → Plays codec before₂ n p₂ →
        p₁.UUID = 0 ∨ p₂.UUID = p₁.UUID
  refused : ∀ before, before <+: events → ∀ client msg p,
    (World.run codec before).1.getUser client.sockfd = some p →
      msg.type = EMessageType.ECSLogin.value →
        ¬ codec.parseCSLogin msg.data (payloadSize msg) ∨ p.UUID ≠ 0 →
          (World.run codec before).1.dispatchCommand codec client msg =
            ((World.run codec before).1, [.read client msg])

/-- A refused login is read and nothing else. -/
theorem dispatchCommand_refused
    {codec : Codec} {w : World} {client : Client} {msg : MessageBody}
    {p : Player} (hfind : w.getUser client.sockfd = some p)
    (htype : msg.type = EMessageType.ECSLogin.value)
    (h : ¬ codec.parseCSLogin msg.data (payloadSize msg) ∨ p.UUID ≠ 0) :
    w.dispatchCommand codec client msg = (w, [.read client msg]) := by
  have hret :=
    (handleLogin_ret_eq_false_iff codec w client.sockfd p msg).mpr h
  have hhandled := handleLogin_refused hret
  unfold World.dispatchCommand World.command
  rw [if_pos htype]
  simp [hfind, hhandled]

theorem loginUuids_toNat
    {codec : Codec} {events : List WorldEvent}
    (hlen : (book (World.run codec events).2).loggers.length < 2 ^ 32) :
    (loginUuids (World.run codec events).2).map UInt32.toNat =
      List.range' 1
        (book (World.run codec events).2).loggers.length := by
  rw [(bookInv_run codec events).told, List.map_map,
    List.range'_eq_map_range]
  apply List.map_congr_left
  intro i hi
  have hlt := List.mem_range.mp hi
  have hnat : (UInt32.ofNat (i + 1)).toNat = i + 1 :=
    UInt32.toNat_ofNat_of_lt' (by
      show i + 1 < 2 ^ 32
      omega)
  rw [Function.comp_apply, hnat, Nat.add_comm]

/-- Below 2^32 logins the identities of a run are unique and stable. -/
theorem stableIdentities
    (codec : Codec) (events : List WorldEvent)
    (hlen : (book (World.run codec events).2).loggers.length < 2 ^ 32) :
    StableIdentities codec events where
  received := acceptances_run codec events
  numbered := loginUuids_toNat hlen
  assigned := by
    intro before hbefore fd p hfind
    exact uuid_toNat hlen hbefore hfind
  unique := by
    intro before₁ before₂ hbefore₁ hbefore₂ n₁ n₂ p₁ p₂ h₁ h₂ hsame huuid
    exact h₁.eq_of_uuid hlen hbefore₁ hbefore₂ h₂ hsame huuid
  stable := by
    intro before₁ before₂ hbefore hbefore₂ n p₁ p₂ h₁ h₂
    by_cases huuid : p₁.UUID = 0
    · exact Or.inl huuid
    · exact Or.inr (h₁.uuid_eq hlen hbefore hbefore₂ h₂ huuid)
  refused := by
    intro before _ client msg p hfind htype h
    exact dispatchCommand_refused hfind htype h

/-- A player leaves, and another one joins at its socket. -/
def playerReplaced : List WorldEvent :=
  joins ⟨0, 4⟩ ++ .deleteUser ⟨0, 4⟩ :: joins ⟨1, 4⟩

theorem stableIdentities_playerReplaced :
    StableIdentities plainCodec playerReplaced :=
  stableIdentities plainCodec playerReplaced (by decide)

end Stability

end LockStep
end NetEngine
