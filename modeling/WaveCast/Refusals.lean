import WaveCast.Interaction.Ensures
import WaveCast.Authority

/-!
# Commands that are refused

The commands that moderate a room read the room and check its lists before
they do anything else (`program_moderated`). So one whose actor does not
moderate the room ends with an error and leaves the world as it was, whatever
the store holds and whatever fails (`refused_unchanged`); an approved speaker
request does not help.
-/

namespace WaveCast

open Interaction WaveCast.Action Program Service

/-- The room and the actor of a command that moderates. -/
def moderation : Command → Option (String × String)
  | .startRoom c => some (c.roomID, c.actorUserID)
  | .finishRoom c => some (c.roomID, c.actorUserID)
  | .approveSpeakerRequest c => some (c.roomID, c.actorUserID)
  | .declineSpeakerRequest c => some (c.roomID, c.actorUserID)
  | .revokeSpeaker c => some (c.roomID, c.actorUserID)
  | .blockSpeaking c => some (c.roomID, c.actorUserID)
  | .unblockSpeaking c => some (c.roomID, c.actorUserID)
  | .removeParticipant c => some (c.roomID, c.actorUserID)
  | .startRecording c => some (c.roomID, c.actorUserID)
  | .stopRecording c => some (c.roomID, c.actorUserID)
  | .generateReport c => some (c.roomID, c.actorUserID)
  | .recordingPlaybackURL roomID _ actorUserID => some (roomID, actorUserID)
  | _ => none

/-- The room is read and the actor checked, and only then `f` goes on. -/
def moderated {α : Type} (roomID actorUserID : String) (f : Room → Action α) : Action α :=
  (store (.getRoom roomID)).bind fun room =>
    (require (roleCanModerate (room.resolveRole actorUserID)) .permissionDenied).bind fun _ =>
      f room

/-- Every command that moderates checks its actor first, except that
`StartRecording` is refused to everybody where recording is disabled. -/
theorem program_moderated (s : Service) {cmd : Command} {roomID actorUserID : String}
    (h : moderation cmd = some (roomID, actorUserID)) :
    (∃ f, s.program cmd = moderated roomID actorUserID f) ∨
      s.program cmd = .fail .recordingDisabled := by
  cases cmd with
  | startRecording c =>
    cases h
    simp only [Service.program, startRecording, map_eq, bind_eq, bind_assoc]
    cases s.cfg.recordingEnabled with
    | true => exact .inl ⟨_, rfl⟩
    | false => exact .inr rfl
  | recordingPlaybackURL roomID recordingID actorUserID =>
    cases h
    left
    simp only [Service.program, recordingPlaybackURL, map_eq, bind_eq, bind_assoc]
    exact ⟨_, rfl⟩
  | startRoom c | finishRoom c | revokeSpeaker c | blockSpeaking c | unblockSpeaking c
  | removeParticipant c | stopRecording c | generateReport c =>
    cases h
    left
    simp only [Service.program, startRoom, finishRoom, revokeSpeaker, blockSpeaking,
      unblockSpeaking, removeParticipant, stopRecording, generateReport, map_eq, bind_eq,
      bind_assoc]
    exact ⟨_, rfl⟩
  | approveSpeakerRequest c | declineSpeakerRequest c =>
    cases h
    left
    simp only [Service.program, approveSpeakerRequest, declineSpeakerRequest,
      decideSpeakerRequest, map_eq, bind_eq, bind_assoc]
    exact ⟨_, rfl⟩
  | _ => cases h

section Denied

variable {I : Infra} {w : World} {roomID actorUserID : String}

/-- Nobody stored as a room under `roomID` is moderated by the actor. -/
def Denied (w : World) (roomID actorUserID : String) : Prop :=
  ∀ room, w.store.rooms.lookup roomID = some room → ¬ room.Moderates actorUserID

theorem moderated_refuses {α : Type} (hd : Denied w roomID actorUserID) (f : Room → Action α) :
    Ensures (S := effects) (World.exec I) (fun _ r w' => (∃ e, r = .error e) ∧ w' = w) [] w
      (moderated roomID actorUserID f) := by
  intro env a w' hx
  rcases World.exec_store hx with ⟨rfl, rfl⟩ | ⟨st, hs, rfl⟩
  · exact ⟨⟨_, rfl⟩, rfl⟩
  · cases hs
    cases hl : w.store.rooms.lookup roomID with
    | none => exact ⟨⟨_, rfl⟩, rfl⟩
    | some room =>
      have hm : roleCanModerate (room.resolveRole actorUserID) = false := by
        simpa using mt (room.canModerate_iff actorUserID).mp (hd room hl)
      simp [Store.found, require, hm]

/-- A call of the store that answers is enough to be refused. -/
theorem moderated_ends {α : Type} (hd : Denied w roomID actorUserID) (f : Room → Action α) :
    ∃ e, Program.eval (S := effects) (World.exec I) [sampleEnv 0 []]
      (moderated roomID actorUserID f) w = some (.error e, w) := by
  cases hl : w.store.rooms.lookup roomID with
  | none =>
    exact ⟨.roomNotFound, by simp [moderated, store, ask, Program.eval, Program.perform,
      World.exec, World.perform, Store.step, sampleEnv, hl, Store.found]⟩
  | some room =>
    have hm : roleCanModerate (room.resolveRole actorUserID) = false := by
      simpa using mt (room.canModerate_iff actorUserID).mp (hd room hl)
    exact ⟨.permissionDenied, by simp [moderated, store, ask, Program.eval, Program.perform,
      World.exec, World.perform, Store.step, sampleEnv, hl, Store.found, require, hm]⟩

end Denied

theorem refuses {s : Service} {I : Infra} {w : World} {cmd : Command}
    {roomID actorUserID : String} (hcmd : moderation cmd = some (roomID, actorUserID))
    (hd : Denied w roomID actorUserID) :
    Ensures (S := effects) (World.exec I) (fun _ r w' => (∃ e, r = .error e) ∧ w' = w) [] w
      (s.program cmd) := by
  rcases program_moderated s hcmd with ⟨f, hf⟩ | hf
  · rw [hf]
    exact moderated_refuses hd f
  · rw [hf]
    exact ⟨⟨_, rfl⟩, rfl⟩

theorem refusal_ends {s : Service} {I : Infra} {w : World} {cmd : Command}
    {roomID actorUserID : String} (hcmd : moderation cmd = some (roomID, actorUserID))
    (hd : Denied w roomID actorUserID) :
    ∃ e, Program.eval (S := effects) (World.exec I) [sampleEnv 0 []] (s.program cmd) w =
      some (.error e, w) := by
  rcases program_moderated s hcmd with ⟨f, hf⟩ | hf
  · rw [hf]
    exact moderated_ends hd f
  · rw [hf]
    exact ⟨_, rfl⟩

/-- Whoever runs the command on the pool gets an error, and nothing changes. -/
def Refused (s : Service) (I : Infra) (p : VoicePool) (cmd : Command) : Prop :=
  (∃ envs q, (s.system I).perform (cmd, envs) p = some q) ∧
  ∀ envs q, (s.system I).perform (cmd, envs) p = some q →
    q.state = p.state ∧ ∃ e, q.threads = p.threads ++ [⟨cmd, .fail e⟩]

theorem refused_of_ensures {s : Service} {I : Infra} {p : VoicePool} {cmd : Command}
    (hens : Ensures (S := effects) (World.exec I) (fun _ r w' => (∃ e, r = .error e) ∧ w' = p.state)
      [] p.state (s.program cmd))
    (hends : ∃ envs r w', Program.eval (S := effects) (World.exec I) envs (s.program cmd) p.state =
      some (r, w')) : Refused s I p cmd := by
  constructor
  · obtain ⟨envs, r, w', he⟩ := hends
    obtain ⟨n, q, hq, -⟩ := System.exists_perform_of_eval (M := s.system I) he
    exact ⟨_, q, hq⟩
  · intro envs q hq
    obtain ⟨o, -⟩ := System.perform_outcome hq (program_asks s cmd)
    obtain ⟨⟨e, he⟩, hstate⟩ := System.perform_ensures hq o hens
    exact ⟨hstate, e, by rw [o.threads_eq, he]; rfl⟩

/-- **Unauthorised moderation is a no-op.** Whatever has happened before, a
command that moderates a room ends with an error and without any change when
its actor does not moderate the room by its lists; and it can end. -/
theorem refused_unchanged (s : Service) (I : Infra) (p : VoicePool) (cmd : Command)
    (roomID actorUserID : String) (hcmd : moderation cmd = some (roomID, actorUserID))
    (hd : Denied p.state roomID actorUserID) :
    (∃ envs q, (s.system I).perform (cmd, envs) p = some q) ∧
    ∀ envs q, (s.system I).perform (cmd, envs) p = some q →
      q.state = p.state ∧ ∃ e, q.threads = p.threads ++ [⟨cmd, .fail e⟩] := by
  obtain ⟨e, he⟩ := refusal_ends (s := s) (I := I) hcmd hd
  exact refused_of_ensures (refuses hcmd hd) ⟨_, _, _, he⟩

/-- A guest whose request to speak was approved may not start a recording. -/
theorem refused_unchanged_promoted :
    ∃ p, (sampleService.system (sampleInfra fun _ => false)).serial
        (openRoom ++ promotion) = some p ∧
      (p.state.store.speakerRequests.lookup sampleRequest).any
        (fun r => r.userID = "guest" && r.status = .approved) = true ∧
      ∀ envs q, (sampleService.system (sampleInfra fun _ => false)).perform
          (.startRecording ⟨sampleRoom, "guest", ""⟩, envs) p = some q →
        q.state = p.state ∧
          ∃ e, q.threads = p.threads ++ [⟨.startRecording ⟨sampleRoom, "guest", ""⟩, .fail e⟩] := by
  have hrun : ((sampleService.system (sampleInfra fun _ => false)).serial
      (openRoom ++ promotion)).any (fun p =>
        (p.state.store.speakerRequests.lookup sampleRequest).any
          (fun r => r.userID = "guest" && r.status = .approved) &&
        (p.state.store.rooms.lookup sampleRoom).all (·.resolveRole "guest" = .listener)) =
      true := by
    decide +kernel
  obtain ⟨p, hp, hfacts⟩ := (Option.any_eq_true _ _).mp hrun
  obtain ⟨hrequest, hroom⟩ := Bool.and_eq_true_iff.mp hfacts
  refine ⟨p, hp, hrequest, (refused_unchanged _ _ p _ sampleRoom "guest" rfl ?_).2⟩
  intro room hl
  rw [hl] at hroom
  exact (room.resolveRole_eq_listener_iff "guest").mp (of_decide_eq_true hroom)

end WaveCast
