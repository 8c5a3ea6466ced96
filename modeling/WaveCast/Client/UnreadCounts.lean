import WaveCast.Client.Reactions

/-!
# Unread counts of private chats

A conversation carries the number of its unread messages beside the flags of the
messages. Reading a conversation is meant to clear both, but the guard of
`markConversationThreadAsRead` lets through only the conversations that have
nothing unread, and a message that is sent or attached clears the number without
the flags. So the counts are right, and reading works, exactly in the runs that
never send into or read a conversation with an unread message
(`unread_counted_iff`).
-/

namespace WaveCast

namespace Client

/-- The number of messages with `isUnread` set. -/
def P2PConversation.unreadMessages (conversation : P2PConversation) : Nat :=
  conversation.messages.countP (·.unread)

/-- Every conversation counts its unread messages. -/
def CountsUnread (current : P2PConversations) : Prop :=
  ∀ personId conversation, current personId = some conversation →
    conversation.unreadCount = conversation.unreadMessages

/-- A message of the conversation with the person is unread. -/
def HasUnread (current : P2PConversations) (personId : String) : Prop :=
  ∃ conversation, current personId = some conversation ∧
    ∃ message ∈ conversation.messages, message.unread

/-- The conversation with the person was read, and no other one touched. -/
structure WasRead (personId : String) (before after : P2PConversations) : Prop where
  read : ∀ conversation, after personId = some conversation →
    conversation.unreadCount = 0 ∧ ∀ message ∈ conversation.messages, ¬message.unread
  others : ∀ other, other ≠ personId → after other = before other

/-! ## The updaters as actions -/

/-- The updaters, with the state of the panel they read. -/
inductive ChatAction where
  | markConversationThreadAsRead (personId : String)
  | sendP2PMessage (activeFriend : Option Person) (p2pText : String)
      (replyingP2PMessage : Option P2PMessage) (messageId : String)
  | appendP2PMessageWithAttachment (activeFriend : Option Person) (file : Option File)
      (kind : AttachmentKind) (objectUrl messageId : String)
  | toggleP2PMessageReaction (friendId messageId : String) (action : Vote)
  | toggleP2PEmojiReaction (friendId messageId : String) (reaction : QuickReaction)

def chatStep (current : P2PConversations) : ChatAction → P2PConversations
  | .markConversationThreadAsRead personId => markConversationThreadAsRead personId current
  | .sendP2PMessage activeFriend p2pText replying messageId =>
    sendP2PMessage activeFriend p2pText replying messageId current
  | .appendP2PMessageWithAttachment activeFriend file kind objectUrl messageId =>
    appendP2PMessageWithAttachment activeFriend file kind objectUrl messageId current
  | .toggleP2PMessageReaction friendId messageId action =>
    toggleP2PMessageReaction friendId messageId action current
  | .toggleP2PEmojiReaction friendId messageId reaction =>
    toggleP2PEmojiReaction friendId messageId reaction current

/-- The person whose conversation the action reads, sends or attaches into. -/
def ChatAction.enters : ChatAction → Option String
  | .markConversationThreadAsRead personId => some personId
  | .sendP2PMessage activeFriend p2pText _ _ =>
    if trim p2pText = "" then none else friendId activeFriend
  | .appendP2PMessageWithAttachment activeFriend file _ _ _ =>
    if file.isSome then friendId activeFriend else none
  | _ => none

/-! ## What the updaters do to the counts -/

section

variable {current : P2PConversations}

theorem CountsUnread.set (h : CountsUnread current) {personId : String}
    {conversation : P2PConversation}
    (hcount : conversation.unreadCount = conversation.unreadMessages) :
    CountsUnread (current.set personId conversation) := by
  intro other c hc
  by_cases hother : other = personId
  · rw [hother, Record.set_self, Option.some.injEq] at hc
    rw [← hc, hcount]
  · rw [Record.set_of_ne _ _ hother] at hc
    exact h other c hc

theorem countsUnread_seed (participants : List Person) :
    CountsUnread (seedConversations participants) := by
  have hempty : CountsUnread Record.empty := fun _ _ h => by simp [Record.empty] at h
  refine (Reducer.eachState_of_forall hempty fun acc entry hacc => ?_).run
  refine hacc.set ?_
  simp only [makeSeedConversation, P2PConversation.unreadMessages]
  by_cases hhistory : entry.2 % 3 = 2
  · simp [hhistory]
  · by_cases hunread : entry.2 % 3 = 0 <;> simp [hunread, hhistory, P2PMessage.unread]

/-- Where the counts are right, reading a conversation changes nothing. -/
theorem markConversationThreadAsRead_eq (h : CountsUnread current) (personId : String) :
    markConversationThreadAsRead personId current = current := by
  rw [markConversationThreadAsRead]
  split
  · rfl
  · next conversation hsome =>
    split
    · rfl
    · next hread =>
      have hzero : conversation.unreadCount = 0 := by
        rw [h _ _ hsome, P2PConversation.unreadMessages, List.countP_eq_zero]
        simpa using hread
      rw [if_pos hzero]

theorem wasRead_iff (h : CountsUnread current) (personId : String) :
    WasRead personId current current ↔ ¬HasUnread current personId := by
  constructor
  · rintro hread ⟨conversation, hsome, message, hmem, hunread⟩
    exact (hread.read conversation hsome).2 message hmem hunread
  · refine fun hnone => ⟨fun conversation hsome => ?_, fun _ _ => rfl⟩
    have hread : ∀ message ∈ conversation.messages, ¬message.unread :=
      fun message hmem hunread => hnone ⟨conversation, hsome, message, hmem, hunread⟩
    refine ⟨?_, hread⟩
    rw [h _ _ hsome, P2PConversation.unreadMessages, List.countP_eq_zero]
    exact hread

/-- A message more keeps the counts right only where nothing was unread. -/
theorem countsUnread_append_iff (h : CountsUnread current) (personId : String)
    (message : P2PMessage) (hmessage : message.unread = false) :
    CountsUnread (appendP2PMessage personId message current) ↔ ¬HasUnread current personId := by
  constructor
  · rintro hcounts ⟨conversation, hsome, other, hmem, hunread⟩
    have hzero := hcounts personId _ (Record.set_self _ _ _)
    simp only [hsome, Option.getD_some, P2PConversation.unreadMessages] at hzero
    have hnone := List.countP_eq_zero.mp hzero.symm other (List.mem_append_left _ hmem)
    exact hnone hunread
  · refine fun hnone => h.set ?_
    symm
    rw [P2PConversation.unreadMessages, List.countP_eq_zero]
    intro other hmem
    rcases List.mem_append.mp hmem with hmem | hmem
    · cases hsome : current personId with
      | none => simp [hsome] at hmem
      | some conversation =>
        rw [hsome] at hmem
        exact fun hunread => hnone ⟨conversation, hsome, other, hmem, hunread⟩
    · simp [List.mem_singleton.mp hmem, hmessage]

theorem CountsUnread.updateMessages (h : CountsUnread current) (friendId messageId : String)
    {f : P2PMessage → P2PMessage} (hf : ∀ message, (f message).isUnread = message.isUnread) :
    CountsUnread (updateMessages friendId messageId f current) := by
  rw [Client.updateMessages]
  split
  · exact h
  · next conversation hsome =>
    refine h.set ?_
    rw [h _ _ hsome, P2PConversation.unreadMessages, P2PConversation.unreadMessages,
      List.countP_map]
    refine List.countP_congr fun message _ => ?_
    simp only [Function.comp_apply, P2PMessage.unread]
    split <;> simp [hf]

end

/-! ## Runs -/

/-- What an action is to do, reading included, and when it does. -/
theorem chatStep_iff {current : P2PConversations} (h : CountsUnread current) (a : ChatAction) :
    (CountsUnread (chatStep current a) ∧
        ∀ personId, a = .markConversationThreadAsRead personId →
          WasRead personId current (chatStep current a)) ↔
      ∀ personId, a.enters = some personId → ¬HasUnread current personId := by
  cases a with
  | markConversationThreadAsRead personId =>
    simp [chatStep, ChatAction.enters, markConversationThreadAsRead_eq h, h, wasRead_iff h]
  | sendP2PMessage activeFriend p2pText replying messageId =>
    simp only [chatStep, ChatAction.enters, sendP2PMessage, reduceCtorEq, false_implies,
      implies_true, and_true]
    cases hfriend : friendId activeFriend with
    | none => simp [h]
    | some personId =>
      by_cases htext : trim p2pText = ""
      · simp [htext, h]
      · simpa [htext] using countsUnread_append_iff h personId (textMessage _ _ _) rfl
  | appendP2PMessageWithAttachment activeFriend file kind objectUrl messageId =>
    simp only [chatStep, ChatAction.enters, appendP2PMessageWithAttachment, reduceCtorEq,
      false_implies, implies_true, and_true]
    cases file with
    | none => simp [h]
    | some file =>
      cases hfriend : friendId activeFriend with
      | none => simp [h]
      | some personId =>
        simpa using countsUnread_append_iff h personId (attachmentMessage _ _ _ _) rfl
  | toggleP2PMessageReaction friendId messageId action =>
    have hcounts : CountsUnread (toggleP2PMessageReaction friendId messageId action current) := by
      cases action with
      | like => exact h.updateMessages _ _ fun message => (message.toggle_keeps .thumbsUp).2
      | dislike => exact h.updateMessages _ _ fun message => (message.toggle_keeps .thumbsDown).2
    simp [chatStep, ChatAction.enters, hcounts]
  | toggleP2PEmojiReaction friendId messageId reaction =>
    have hcounts : CountsUnread (toggleP2PEmojiReaction friendId messageId reaction current) := by
      rw [toggleP2PEmojiReaction_eq]
      exact h.updateMessages _ _ fun message => (message.toggle_keeps reaction).2
    simp [chatStep, ChatAction.enters, hcounts]

/-- **Unread counts.** In every run from the seeded conversations, all states
count their unread messages and every reading of a conversation reads it iff no
action reads, sends or attaches into a conversation with an unread message. -/
theorem unread_counted_iff (participants : List Person) (actions : List ChatAction) :
    (Reducer.EachState chatStep CountsUnread (seedConversations participants) actions ∧
      Reducer.EachAction chatStep
        (fun current a => ∀ personId, a = .markConversationThreadAsRead personId →
          WasRead personId current (chatStep current a))
        (seedConversations participants) actions) ↔
      Reducer.EachAction chatStep
        (fun current a => ∀ personId, a.enters = some personId → ¬HasUnread current personId)
        (seedConversations participants) actions :=
  Reducer.each_iff (F := fun _ _ => True) (fun _ _ _ _ => trivial)
    (countsUnread_seed participants) fun _ a _ h => chatStep_iff h a

/-- The unread count of a conversation, and the number of its unread messages. -/
def unreadCounts (current : P2PConversations) (personId : String) : Option (Nat × Nat) :=
  (current personId).map fun conversation =>
    (conversation.unreadCount, conversation.unreadMessages)

theorem CountsUnread.unreadCounts_eq {current : P2PConversations} (h : CountsUnread current)
    {personId : String} {counts : Nat × Nat}
    (hcounts : unreadCounts current personId = some counts) : counts.1 = counts.2 := by
  obtain ⟨conversation, hsome, rfl⟩ := Option.map_eq_some_iff.mp hcounts
  exact h personId conversation hsome

theorem WasRead.unreadCounts_eq {current after : P2PConversations} {personId : String}
    (h : WasRead personId current after) {counts : Nat × Nat}
    (hcounts : unreadCounts after personId = some counts) : counts.1 = 0 := by
  obtain ⟨conversation, hsome, rfl⟩ := Option.map_eq_some_iff.mp hcounts
  exact (h.read conversation hsome).1

/-- The conversation with Alice is seeded with an unread message. Reading it
leaves it unread, and a message to her clears the count but not the flag. -/
theorem unread_counted_fails :
    ¬WasRead "user_alice" (seedConversations roomParticipants)
        (chatStep (seedConversations roomParticipants)
          (.markConversationThreadAsRead "user_alice")) ∧
      ¬CountsUnread (Reducer.run chatStep (seedConversations roomParticipants)
        [.sendP2PMessage (some (person 0)) "Hello" none "message"]) := by
  have hread : unreadCounts (chatStep (seedConversations roomParticipants)
      (.markConversationThreadAsRead "user_alice")) "user_alice" = some (1, 1) := by
    decide +kernel
  have hsent : unreadCounts (Reducer.run chatStep (seedConversations roomParticipants)
      [.sendP2PMessage (some (person 0)) "Hello" none "message"]) "user_alice" =
        some (0, 1) := by
    decide +kernel
  refine ⟨fun h => ?_, fun h => ?_⟩
  · exact absurd (h.unreadCounts_eq hread) (by simp)
  · exact absurd (h.unreadCounts_eq hsent) (by simp)

end Client

end WaveCast
