import WaveCast.Protocol

/-!
# What the commands return

The results of the commands that moderate or finish a room, from what they
have exchanged (`program_returns`). An event is published after the record is
saved, so a command can fail although it has changed the store.
-/

namespace WaveCast

open Interaction WaveCast.Action Program Service

/-- An event was not appended, or not published. -/
def PublishFailed (h : List VoiceExchange) : Prop :=
  ∃ event e, ⟨.store (.appendEvent event), .error e⟩ ∈ h ∨ ⟨.publish event, .error e⟩ ∈ h

/-- A decision saves at most one request. It returns the request it saved,
unless publishing failed, and an error if it saved none. -/
def DecisionResult (h : List VoiceExchange) (r : Except AppError Reply) : Prop :=
  (∃ request, (∀ request', ⟨.store (.saveSpeakerRequest request'), .ok ()⟩ ∈ h ↔
      request' = request) ∧
    (r = .ok (.speakerRequest request) ∨ (PublishFailed h ∧ ∃ e, r = .error e))) ∨
  (∃ e, r = .error e) ∧ ∀ request, ⟨.store (.saveSpeakerRequest request), .ok ()⟩ ∉ h

/-- The result of a command, from what it has exchanged. -/
def Returns (s : Service) (h : List VoiceExchange) (r : Except AppError Reply) : Command → Prop
  | .approveSpeakerRequest _ => DecisionResult h r
  | .declineSpeakerRequest _ => DecisionResult h r
  | .revokeSpeaker c => ∀ reply, r = .ok reply →
      ∃ room, ⟨.store (.getRoom c.roomID), .ok room⟩ ∈ h ∧ room.Moderates c.actorUserID
  | .finishRoom c => (∀ event a, ⟨.publish event, a⟩ ∈ h →
        ∃ room, ⟨.store (.saveRoom room), .ok ()⟩ ∈ h) ∧
      ∀ room, ⟨.store (.saveRoom room), .ok ()⟩ ∈ h →
        (PublishFailed h ∧ ∀ job a, ⟨.enqueue job, a⟩ ∉ h) ∨
        (¬ PublishFailed h ∧ (s.hasJobQueue → ∃ a a',
          ⟨.enqueue (closeSessionsJob room.id c.actorUserID), a⟩ ∈ h ∧
          ⟨.enqueue (generateReportJob room.id c.actorUserID), a'⟩ ∈ h))
  | _ => True

theorem decideSpeakerRequest_returns {c : DecideSpeakerRequestCommand}
    {status : SpeakerRequestStatus} {eventType : String} :
    Follows (S := effects) (fun _ _ => True) DecisionResult []
      (Reply.speakerRequest <$> decideSpeakerRequest c status eventType) := by
  simp only [decideSpeakerRequest, publish, map_eq, bind_eq, pure_eq, bind_assoc, follows_store,
    follows_require, follows_now, follows_fresh, follows_publishCall, true_and, ret_bind,
    follows_ret]
  simp [DecisionResult, PublishFailed]

theorem revokeSpeaker_returns (s : Service) (c : RevokeSpeakerCommand) :
    Follows (S := effects) (fun _ _ => True) (fun h r => Returns s h r (.revokeSpeaker c)) []
      (s.program (.revokeSpeaker c)) := by
  simp only [Service.program, revokeSpeaker, publish, map_eq, bind_eq, bind_assoc,
    follows_store, follows_require, follows_now, follows_fresh, follows_publishCall,
    Room.canModerate_iff, true_and, follows_ret, Returns]
  simp +contextual

theorem finishRoom_returns (s : Service) (c : FinishRoomCommand) :
    Follows (S := effects) (fun _ _ => True) (fun h r => Returns s h r (.finishRoom c)) []
      (s.program (.finishRoom c)) := by
  simp only [Service.program, finishRoom, publish, map_eq, bind_eq, pure_eq, bind_assoc,
    follows_store, follows_require, follows_now, follows_fresh, follows_publishCall, true_and]
  cases hq : s.hasJobQueue with
  | true =>
    simp only [enqueueBestEffort, hq, ↓reduceIte, bind_eq, pure_eq, bind_assoc, follows_ask,
      true_and, ret_bind, follows_ret, Returns]
    simp [PublishFailed, closeSessionsJob, generateReportJob]
  | false =>
    simp only [enqueueBestEffort, hq, Bool.false_eq_true, ↓reduceIte, pure_eq, ret_bind,
      follows_ret, Returns]
    simp [PublishFailed]

/-- **Every command returns what its exchanges call for.** -/
theorem program_returns (s : Service) (cmd : Command) :
    Follows (S := effects) (fun _ _ => True) (fun h r => Returns s h r cmd) [] (s.program cmd) := by
  have hany : ∀ p : Action Reply, Follows (S := effects) (fun _ _ => True) (fun _ _ => True) [] p :=
    follows_of_forall (fun _ _ => trivial) (fun _ _ => trivial) _
  cases cmd with
  | approveSpeakerRequest c => exact decideSpeakerRequest_returns
  | declineSpeakerRequest c => exact decideSpeakerRequest_returns
  | revokeSpeaker c => exact revokeSpeaker_returns s c
  | finishRoom c => exact finishRoom_returns s c
  | _ => simp only [Returns, hany]

end WaveCast
