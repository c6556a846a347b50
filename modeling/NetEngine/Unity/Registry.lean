import NetEngine.Unity.FrameExecution
import NetEngine.Unity.Sights

/-!
# Coherence of the registry

Every entry of `m_allPlayer` should map a UUID to the Player that carries it.
An SCSight of one player keeps this.  An SCSight of two or more breaks it,
because one instance ends up registered for all of them: `coherent_iff` says
that a client stays coherent exactly as long as no SCSight lists two players.
-/

namespace NetEngine
namespace Unity

open LockStep

variable {τ : Type} (engine : Engine τ)

/-- Entries map UUIDs to different instances that carry them. -/
structure Coherent (s : Scene τ) : Prop where
  own : ∀ u i, s.getPlayer u = some i →
    ∃ p, s.players[i]? = some p ∧ p.UUID = u
  distinct : ∀ u v i, s.getPlayer u = some i → s.getPlayer v = some i →
    u = v

/-- Every listed player is registered, at the place listed for it. -/
def SightShown (infos : List PlayerInfo) (s : Scene τ) : Prop :=
  ∀ info ∈ infos, ∃ i p,
    s.getPlayer info.uuid = some i ∧ s.players[i]? = some p ∧
      p.posX = info.posx ∧ p.posY = info.posy ∧ p.posZ = info.posz

/-- What should hold when a message has been handled. -/
def CoherentAfter (s : Scene τ) (e : SceneEvent) : Prop :=
  Coherent s ∧
    ∀ infos, e = .receive (.SCSight infos) → SightShown infos s

/-- Different UUIDs have different owners. -/
theorem coherent_of_own
    {s : Scene τ}
    (h : ∀ u i, s.getPlayer u = some i → s.uuidAt i = some u) :
    Coherent s := by
  constructor
  · intro u i hi
    obtain ⟨p, hp, huuid⟩ := Option.map_eq_some_iff.mp (h u i hi)
    exact ⟨p, hp, huuid⟩
  · intro u v i hu hv
    have heq := (h u i hu).symm.trans (h v i hv)
    exact Option.some.inj heq

theorem Coherent.uuidAt
    {s : Scene τ} (h : Coherent s) {u : UInt32} {i : PlayerRef}
    (hi : s.getPlayer u = some i) :
    s.uuidAt i = some u := by
  obtain ⟨p, hp, huuid⟩ := h.own u i hi
  rw [Scene.uuidAt, hp, ← huuid]
  rfl

theorem Coherent.refsValid
    {s : Scene τ} (h : Coherent s) :
    s.RefsValid := by
  intro u i hi
  exact (Scene.lt_length_iff_uuidAt s i).mpr ⟨u, h.uuidAt hi⟩

theorem Coherent.of_sameIdentities
    {s s' : Scene τ} (h : Coherent s)
    (hsame : Scene.SameIdentities s s') :
    Coherent s' := by
  apply coherent_of_own
  intro u i hi
  rw [Scene.getPlayer, hsame.registry] at hi
  rw [hsame.uuid]
  exact h.uuidAt hi

/-- Registering an instance under the UUID it carries. -/
theorem Coherent.register
    {s s' : Scene τ} (h : Coherent s) {u : UInt32} {i : PlayerRef}
    (hget : ∀ v, s'.getPlayer v =
      if v = u then some i else s.getPlayer v)
    (hself : s'.uuidAt i = some u)
    (hothers : ∀ v j, v ≠ u → s.getPlayer v = some j →
      s'.uuidAt j = s.uuidAt j) :
    Coherent s' := by
  apply coherent_of_own
  intro v j hj
  rw [hget] at hj
  split_ifs at hj with hv
  · cases hj
    rw [hv]
    exact hself
  · rw [hothers v j hv hj]
    exact h.uuidAt hj

theorem Coherent.onLogin
    {s : Scene τ} (h : Coherent s) (uuid : UInt32) :
    Coherent (s.onLogin engine uuid) := by
  obtain ⟨hplayers, hget⟩ := Scene.onLogin_spec engine uuid s
  refine h.register hget ?_ ?_
  · rw [Scene.uuidAt, hplayers]
    simp
  · intro v j _ hj
    have hlt : j < s.players.length := h.refsValid v j hj
    rw [Scene.uuidAt, hplayers, List.getElem?_append_left hlt]
    rfl

/-- An SCSight of one player. -/
theorem Coherent.onSight_single
    {s : Scene τ} (h : Coherent s) (info : PlayerInfo) :
    Coherent (s.onSight engine [info]) ∧
      SightShown [info] (s.onSight engine [info]) := by
  have hstart := Scene.getOrInstantiate_start engine h.refsValid info.uuid
  have hround : s.onSight engine [info] =
      (s.getOrInstantiate engine info.uuid).1.playerOnSight engine [info]
        (s.getOrInstantiate engine info.uuid).2 := rfl
  have hregistered :=
    Scene.getOrInstantiate_getPlayer engine info.uuid s
  have hother : ∀ v j, v ≠ info.uuid → s.getPlayer v = some j →
      j ≠ (s.getOrInstantiate engine info.uuid).2 ∧
        (s.getOrInstantiate engine info.uuid).1.uuidAt j =
          s.uuidAt j := by
    intro v j hv hj
    have hlt : j < s.players.length := h.refsValid v j hj
    refine ⟨?_, Scene.getOrInstantiate_uuidAt engine info.uuid hlt⟩
    rcases s.getOrInstantiate_cases engine info.uuid with
      ⟨i, hget, heq⟩ | ⟨_, heq⟩
    · rw [heq]
      rintro rfl
      exact hv (h.distinct v info.uuid j hj hget)
    · rw [heq]
      exact Nat.ne_of_lt hlt
  rw [hround]
  generalize (s.getOrInstantiate engine info.uuid).1 = s₁
    at hstart hregistered hother ⊢
  generalize (s.getOrInstantiate engine info.uuid).2 = i
    at hstart hother ⊢
  obtain ⟨hplayers, hget⟩ :=
    Scene.playerOnSight_spec engine [info] hstart.ref
  have hi : i < s₁.players.length := hstart.ref
  have hself :
      (s₁.playerOnSight engine [info] i).players[i]? =
        some (s₁.players[i].setPlayerInfo engine info) := by
    rw [hplayers, List.getElem?_modify_eq,
      List.getElem?_eq_getElem hi]
    rfl
  have hget' : ∀ v, (s₁.playerOnSight engine [info] i).getPlayer v =
      if v = info.uuid then some i else s.getPlayer v := by
    intro v
    rw [hget, hregistered]
    simp
  constructor
  · refine h.register hget' ?_ ?_
    · rw [Scene.uuidAt, hself]
      rfl
    · intro v j hv hj
      obtain ⟨hne, huuid⟩ := hother v j hv hj
      rw [← huuid, Scene.uuidAt, hplayers,
        List.getElem?_modify_ne _ _ (Ne.symm hne)]
      rfl
  · intro info' hinfo'
    obtain rfl := List.mem_singleton.mp hinfo'
    exact ⟨i, _, (hget' _).trans (if_pos rfl), hself, rfl, rfl, rfl⟩

/-- An SCSight of at most one player. -/
theorem Coherent.onSight
    {s : Scene τ} (h : Coherent s) {infos : List PlayerInfo}
    (hlen : infos.length ≤ 1) :
    Coherent (s.onSight engine infos) ∧
      SightShown infos (s.onSight engine infos) := by
  cases infos with
  | nil =>
      exact ⟨h, by simp [SightShown]⟩
  | cons info infos =>
      cases infos with
      | nil =>
          exact h.onSight_single engine info
      | cons second infos =>
          simp at hlen

/-- An SCSight of two or more different players. -/
theorem not_coherent_onSight
    {s : Scene τ} (hs : s.RefsValid) {infos : List PlayerInfo}
    (hnodup : (infos.map (fun info => info.uuid)).Nodup)
    (hlen : ¬ infos.length ≤ 1) :
    ¬ Coherent (s.onSight engine infos) := by
  intro hcoherent
  cases infos with
  | nil =>
      simp at hlen
  | cons first infos =>
      cases infos with
      | nil =>
          simp at hlen
      | cons second infos =>
          have hafter := Scene.onSight_spec engine hs
            (List.cons_ne_nil first (second :: infos))
          obtain ⟨i, hregistered, -⟩ := hafter.collapsed
          have heq := hcoherent.distinct first.uuid second.uuid i
            (hregistered first (by simp)) (hregistered second (by simp))
          simp [heq] at hnodup

/-- One event that lists at most one player. -/
theorem Coherent.step
    {s : Scene τ} (h : Coherent s) {e : SceneEvent}
    (hlen : ∀ infos, e = .receive (.SCSight infos) → infos.length ≤ 1) :
    CoherentAfter (s.step engine e).1 e := by
  cases e with
  | receive msg =>
      cases msg with
      | SCLogin uuid =>
          exact ⟨h.onLogin engine uuid, by simp⟩
      | SCSight infos =>
          obtain ⟨hcoherent, hshown⟩ := h.onSight engine (hlen infos rfl)
          refine ⟨hcoherent, ?_⟩
          intro infos' heq
          cases heq
          exact hshown
      | SCFrameInit proto =>
          exact ⟨h.of_sameIdentities (Scene.onFrameInit_identities proto s),
            by simp⟩
      | SCFrame proto =>
          exact ⟨h.of_sameIdentities
            (Scene.onFrame_identities engine proto s), by simp⟩
  | fixedUpdate i connected w s' a d =>
      exact ⟨h.of_sameIdentities
        (Scene.fixedUpdate_identities i connected w s' a d s), by simp⟩

theorem coherent_init :
    Coherent ({} : Scene τ) :=
  coherent_of_own (fun _ _ h => by cases h)

/-- A client is coherent after each message of a run. -/
def CoherentRun (events : List SceneEvent) : Prop :=
  Machine.Along (Scene.step engine)
    (fun s _ e => CoherentAfter (s.step engine e).1 e) {} events

/--
When the players of each SCSight are different, a client is coherent after each
event of a run exactly if no SCSight lists more than one player.
-/
theorem coherent_iff
    (events : List SceneEvent)
    (hnodup : ∀ infos, .receive (.SCSight infos) ∈ events →
      (infos.map (fun info => info.uuid)).Nodup) :
    CoherentRun engine events ↔
      ∀ infos, .receive (.SCSight infos) ∈ events →
        infos.length ≤ 1 := by
  constructor
  · intro hrun infos hmem
    by_contra hlen
    obtain ⟨before, after, hevents⟩ := List.append_of_mem hmem
    have hcoherent := (hrun before _ after hevents).1
    exact not_coherent_onSight engine (Scene.refsValid_run engine before)
      (hnodup infos hmem) hlen hcoherent
  · intro hlen before e after hevents
    have hguard : Machine.Along (Scene.step engine)
        (fun _ _ e => ∀ infos, e = .receive (.SCSight infos) →
          infos.length ≤ 1) {} events := by
      rintro before e after rfl infos rfl
      exact hlen infos (by simp)
    rw [hevents] at hguard
    have hcoherent : Coherent (Scene.run engine before).1 := by
      refine Machine.run_invariant_along
        (I := fun (s : Scene τ) _ => Coherent s) coherent_init ?_
        hguard.of_append
      intro s _ e he h
      exact (h.step engine he).1
    exact hcoherent.step engine (hguard before e after rfl)

/-- One player logs in and is sighted alone. -/
theorem coherent_iff_alone :
    CoherentRun unitEngine
      [.receive (.SCLogin 1), .receive (.SCSight [⟨1, 0, 0, 0⟩])] :=
  (coherent_iff unitEngine _ (by simp)).mpr (by simp)

/-- Two players in one SCSight are registered as one instance. -/
theorem not_coherent :
    ¬ ∀ (events : List SceneEvent),
      (∀ e ∈ events, (∃ uuid, e = .receive (.SCLogin uuid)) ∨
        ∃ infos, e = .receive (.SCSight infos) ∧
          (infos.map (fun info => info.uuid)).Nodup ∧
          ∀ info ∈ infos, info.uuid ≠ 0) →
      CoherentRun unitEngine events := by
  intro h
  have hrun := h [.receive (.SCSight [⟨1, 0, 0, 0⟩, ⟨2, 0, 0, 0⟩])] (by
    intro e he
    obtain rfl := List.mem_singleton.mp he
    exact Or.inr ⟨_, rfl, by decide, by decide⟩)
  have hcoherent := (hrun [] _ [] rfl).1
  exact absurd (hcoherent.distinct 1 2 0 (by decide) (by decide))
    (by decide)

end Unity
end NetEngine
