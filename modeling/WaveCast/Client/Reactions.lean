import WaveCast.Client.PrivateChats
import WaveCast.Reducer.Polls
import WaveCast.Reducer.Runs

/-!
# Reactions

The reactions to the messages of a room, `components/room/room-side-panel.tsx`.
A user holds at most one vote and at most one emoji for a message, and every
count is what it was, plus one where the user holds that reaction. The private
chats have a copy of the updaters, which does the same.

Counts are integers: the numbers of the source agree with them below `2^53`.
-/

namespace WaveCast

namespace Client

structure RoomReplyTo where
  name : String
  body : String

structure RoomChatMessage where
  id : String
  name : String
  avatar : String
  time : String
  body : String
  replyTo : Option RoomReplyTo := none
  likes : Int
  dislikes : Int
  userReaction : Option Vote := none
  emojiReactions : Option EmojiReactions := none
  userEmojiReaction : Option QuickReaction := none

/-- The messages a room starts with. -/
def seedRoomMessages : List RoomChatMessage :=
  [{ id := "seed-room-message-sarah", name := "Sarah Wilson", avatar := (person 3).avatar
     time := "2m ago", body := "Great insights so far! 👏", likes := 12, dislikes := 0 },
   { id := "seed-room-message-james", name := "James Lee", avatar := (person 4).avatar
     time := "1m ago", body := "Can we talk about the real-world applications of this?"
     likes := 8, dislikes := 0 },
   { id := "seed-room-message-priya", name := "Priya Shah", avatar := (person 5).avatar
     time := "just now", body := "Would love to hear more about the future trends!"
     likes := 5, dislikes := 0 }]

/-- `emojiReactions?.[reaction] ?? 0`. -/
def RoomChatMessage.emojiCount (message : RoomChatMessage) (reaction : QuickReaction) : Int :=
  EmojiReactions.count (message.emojiReactions.getD Record.empty) reaction

section Toggles

-- what a count that is lowered is put through: `atLeastZero` in the source
variable (clamp : Int → Int)

/-- What `toggleRoomMessageReaction` makes of the message it is for. -/
def RoomChatMessage.toggleReaction (action : Vote) (message : RoomChatMessage) :
    RoomChatMessage :=
  if message.userReaction = some action then
    match action with
    | .like => { message with likes := clamp (message.likes - 1), userReaction := none }
    | .dislike => { message with dislikes := clamp (message.dislikes - 1), userReaction := none }
  else
    let nextLikes :=
      if message.userReaction = some .like then clamp (message.likes - 1) else message.likes
    let nextDislikes :=
      if message.userReaction = some .dislike then clamp (message.dislikes - 1)
      else message.dislikes
    match action with
    | .like => { message with
        likes := nextLikes + 1, dislikes := nextDislikes, userReaction := some .like }
    | .dislike => { message with
        likes := nextLikes, dislikes := nextDislikes + 1, userReaction := some .dislike }

/-- What `toggleRoomEmojiReaction` makes of the message it is for. -/
def RoomChatMessage.toggleEmoji (reaction : QuickReaction) (message : RoomChatMessage) :
    RoomChatMessage :=
  let emojiReactions := message.emojiReactions.getD Record.empty
  let currentCount := EmojiReactions.count emojiReactions reaction
  if message.userEmojiReaction = some reaction then
    { message with
      emojiReactions := some (emojiReactions.set reaction (clamp (currentCount - 1)))
      userEmojiReaction := none }
  else
    let lowered := match message.userEmojiReaction with
      | none | some .thumbsUp | some .thumbsDown => emojiReactions
      | some currentReaction => emojiReactions.set currentReaction
          (clamp (EmojiReactions.count emojiReactions currentReaction - 1))
    { message with
      emojiReactions := some (lowered.set reaction (currentCount + 1))
      userEmojiReaction := some reaction }

def toggleRoomMessageReaction (messageId : String) (action : Vote)
    (current : List RoomChatMessage) : List RoomChatMessage :=
  current.map fun message =>
    if message.id ≠ messageId then message else message.toggleReaction clamp action

def toggleRoomEmojiReaction (messageId : String) (reaction : QuickReaction)
    (current : List RoomChatMessage) : List RoomChatMessage :=
  match reaction with
  | .thumbsUp => toggleRoomMessageReaction clamp messageId .like current
  | .thumbsDown => toggleRoomMessageReaction clamp messageId .dislike current
  | _ => current.map fun message =>
      if message.id ≠ messageId then message else message.toggleEmoji clamp reaction

end Toggles

/-! ## Reactions, whatever the message -/

/-- The reactions to a message: votes, and emojis beside them. -/
structure Reactions where
  votes : Poll Vote
  emojis : Poll QuickReaction

/-- What a toggle is for: two polls behind one entry point. -/
def Reactions.toggle (clamp : Int → Int) (reaction : QuickReaction) (r : Reactions) : Reactions :=
  match reaction with
  | .thumbsUp => { r with votes := r.votes.toggle clamp .like }
  | .thumbsDown => { r with votes := r.votes.toggle clamp .dislike }
  | _ => { r with emojis := r.emojis.toggle clamp reaction }

/-- No vote was chosen as an emoji. -/
def Reactions.Proper (r : Reactions) : Prop :=
  r.emojis.choice ≠ some .thumbsUp ∧ r.emojis.choice ≠ some .thumbsDown

/-- The counts of `r` are those of `base`, plus one for each choice. -/
structure Reactions.Tallies (base r : Reactions) : Prop where
  votes : r.votes.Tallies base.votes.counts
  emojis : r.emojis.Tallies base.emojis.counts
  proper : r.Proper

/-- No count is negative. -/
structure Reactions.Counts (r : Reactions) : Prop where
  votes : ∀ vote, 0 ≤ r.votes.counts vote
  emojis : ∀ reaction, 0 ≤ r.emojis.counts reaction

section

variable {clamp : Int → Int} {base r : Reactions}

theorem Reactions.Proper.toggle (h : r.Proper) (reaction : QuickReaction) :
    (r.toggle clamp reaction).Proper := by
  cases reaction with
  | thumbsUp => exact h
  | thumbsDown => exact h
  | _ =>
    simp only [Reactions.toggle, Reactions.Proper, Poll.toggle]
    split <;> simp

theorem Reactions.Tallies.toggle (h : base.Tallies r) (hbase : base.Counts)
    (hclamp : ∀ n, 0 ≤ n → clamp n = n) (reaction : QuickReaction) :
    base.Tallies (r.toggle clamp reaction) := by
  refine ⟨?_, ?_, h.proper.toggle reaction⟩
  · cases reaction with
    | thumbsUp => exact h.votes.toggle hbase.votes hclamp .like
    | thumbsDown => exact h.votes.toggle hbase.votes hclamp .dislike
    | _ => exact h.votes
  · cases reaction with
    | thumbsUp => exact h.emojis
    | thumbsDown => exact h.emojis
    | _ => exact h.emojis.toggle hbase.emojis hclamp _

end

theorem atLeastZero_of_nonneg (n : Int) (h : 0 ≤ n) : atLeastZero n = n := max_eq_right h

@[simp] theorem EmojiReactions.count_set (reactions : EmojiReactions) (reaction : QuickReaction)
    (n : Int) :
    EmojiReactions.count (Record.set reactions reaction n) =
      Function.update reactions.count reaction n := by
  funext e
  by_cases he : e = reaction
  · simp [EmojiReactions.count, he]
  · simp [EmojiReactions.count, Record.set_of_ne _ _ he, Function.update_of_ne he]

/-! ## The two copies -/

/-- The message with the toggle applied to it. -/
def RoomChatMessage.toggle (clamp : Int → Int) (reaction : QuickReaction)
    (message : RoomChatMessage) : RoomChatMessage :=
  match reaction with
  | .thumbsUp => message.toggleReaction clamp .like
  | .thumbsDown => message.toggleReaction clamp .dislike
  | _ => message.toggleEmoji clamp reaction

def P2PMessage.toggle (reaction : QuickReaction) (message : P2PMessage) : P2PMessage :=
  match reaction with
  | .thumbsUp => message.toggleReaction .like
  | .thumbsDown => message.toggleReaction .dislike
  | _ => message.toggleEmoji reaction

def voteCounts (likes dislikes : Int) : Vote → Int
  | .like => likes
  | .dislike => dislikes

@[simp] theorem update_voteCounts_like (likes dislikes n : Int) :
    Function.update (voteCounts likes dislikes) .like n = voteCounts n dislikes := by
  funext vote
  cases vote <;> rfl

@[simp] theorem update_voteCounts_dislike (likes dislikes n : Int) :
    Function.update (voteCounts likes dislikes) .dislike n = voteCounts likes n := by
  funext vote
  cases vote <;> rfl

def RoomChatMessage.reactions (message : RoomChatMessage) : Reactions where
  votes := ⟨voteCounts message.likes message.dislikes, message.userReaction⟩
  emojis := ⟨(message.emojiReactions.getD Record.empty).count, message.userEmojiReaction⟩

def P2PMessage.reactions (message : P2PMessage) : Reactions where
  votes := ⟨voteCounts (message.likes.getD 0) (message.dislikes.getD 0), message.userReaction⟩
  emojis := ⟨(message.emojiReactions.getD Record.empty).count, message.userEmojiReaction⟩

theorem RoomChatMessage.reactions_toggleReaction (clamp : Int → Int) (action : Vote)
    (message : RoomChatMessage) :
    (message.toggleReaction clamp action).reactions =
      { message.reactions with votes := message.reactions.votes.toggle clamp action } := by
  obtain ⟨_, _, _, _, _, _, likes, dislikes, chosen, _, _⟩ := message
  rcases chosen with - | chosen
  · cases action <;> simp [toggleReaction, reactions, Poll.toggle, voteCounts]
  · cases action <;> cases chosen <;>
      simp [toggleReaction, reactions, Poll.toggle, Poll.lower, voteCounts]

theorem RoomChatMessage.reactions_toggleEmoji (clamp : Int → Int) (reaction : QuickReaction)
    {message : RoomChatMessage} (h : message.reactions.Proper) :
    (message.toggleEmoji clamp reaction).reactions =
      { message.reactions with emojis := message.reactions.emojis.toggle clamp reaction } := by
  simp only [toggleEmoji, reactions, Poll.toggle]
  split
  · simp [*, Poll.lower]
  · next hother =>
    obtain hnone | ⟨chosen, hsome⟩ := Option.eq_none_or_eq_some message.userEmojiReaction
    · simp [hnone]
    · rw [hsome] at hother
      cases chosen with
      | thumbsUp => exact absurd hsome h.1
      | thumbsDown => exact absurd hsome h.2
      | _ => simp [hsome, hother, Poll.lower]

/-- A toggle of the copy keeps what is not a reaction, as far as it is read here. -/
theorem P2PMessage.toggle_keeps (reaction : QuickReaction) (message : P2PMessage) :
    (message.toggle reaction).id = message.id ∧
      (message.toggle reaction).isUnread = message.isUnread := by
  have hvote : ∀ action, (message.toggleReaction action).id = message.id ∧
      (message.toggleReaction action).isUnread = message.isUnread := fun action => by
    cases action <;> simp only [toggleReaction] <;> split <;> exact ⟨rfl, rfl⟩
  have hemoji : ∀ reaction, (message.toggleEmoji reaction).id = message.id ∧
      (message.toggleEmoji reaction).isUnread = message.isUnread := fun reaction => by
    simp only [toggleEmoji]
    split <;> exact ⟨rfl, rfl⟩
  cases reaction with
  | thumbsUp => exact hvote .like
  | thumbsDown => exact hvote .dislike
  | _ => exact hemoji _

@[simp] theorem P2PMessage.toggle_id (reaction : QuickReaction) (message : P2PMessage) :
    (message.toggle reaction).id = message.id :=
  (message.toggle_keeps reaction).1

theorem P2PMessage.reactions_toggleReaction (action : Vote) (message : P2PMessage) :
    (message.toggleReaction action).reactions =
      { message.reactions with votes := message.reactions.votes.toggle atLeastZero action } := by
  obtain ⟨_, _, _, _, _, _, _, _, likes, dislikes, chosen, _, _, _⟩ := message
  rcases chosen with - | chosen
  · cases action <;> simp [toggleReaction, reactions, Poll.toggle, voteCounts]
  · cases action <;> cases chosen <;>
      simp [toggleReaction, reactions, Poll.toggle, Poll.lower, voteCounts]

theorem P2PMessage.reactions_toggleEmoji (reaction : QuickReaction) {message : P2PMessage}
    (h : message.reactions.Proper) :
    (message.toggleEmoji reaction).reactions =
      { message.reactions with
        emojis := message.reactions.emojis.toggle atLeastZero reaction } := by
  simp only [toggleEmoji, reactions, Poll.toggle]
  split
  · simp [*, Poll.lower]
  · next hother =>
    obtain hnone | ⟨chosen, hsome⟩ := Option.eq_none_or_eq_some message.userEmojiReaction
    · simp [hnone]
    · rw [hsome] at hother
      cases chosen with
      | thumbsUp => exact absurd hsome h.1
      | thumbsDown => exact absurd hsome h.2
      | _ => simp [hsome, hother, Poll.lower]

/-- The message of a room does what the two polls do. -/
theorem RoomChatMessage.reactions_toggle (clamp : Int → Int) (reaction : QuickReaction)
    {message : RoomChatMessage} (h : message.reactions.Proper) :
    (message.toggle clamp reaction).reactions = message.reactions.toggle clamp reaction := by
  cases reaction with
  | thumbsUp => exact reactions_toggleReaction clamp .like message
  | thumbsDown => exact reactions_toggleReaction clamp .dislike message
  | _ => exact reactions_toggleEmoji clamp _ h

/-- So does the message of a private chat. -/
theorem P2PMessage.reactions_toggle (reaction : QuickReaction) {message : P2PMessage}
    (h : message.reactions.Proper) :
    (message.toggle reaction).reactions = message.reactions.toggle atLeastZero reaction := by
  cases reaction with
  | thumbsUp => exact reactions_toggleReaction .like message
  | thumbsDown => exact reactions_toggleReaction .dislike message
  | _ => exact reactions_toggleEmoji _ h

theorem toggleRoomEmojiReaction_eq (clamp : Int → Int) (messageId : String)
    (reaction : QuickReaction) (current : List RoomChatMessage) :
    toggleRoomEmojiReaction clamp messageId reaction current =
      current.map fun message =>
        if message.id ≠ messageId then message else message.toggle clamp reaction := by
  cases reaction <;> rfl

theorem toggleP2PEmojiReaction_eq (friendId messageId : String) (reaction : QuickReaction) :
    toggleP2PEmojiReaction friendId messageId reaction =
      updateMessages friendId messageId (.toggle reaction) := by
  cases reaction <;> rfl

/-! ## Runs -/

/-- A call of `toggleRoomEmojiReaction` or of its copy: a message and a reaction. -/
abbrev ReactionCall := String × QuickReaction

/-- The messages of the room after the calls. -/
def roomAfter (clamp : Int → Int) (calls : List ReactionCall) (messages : List RoomChatMessage) :
    List RoomChatMessage :=
  Reducer.run (fun current call => toggleRoomEmojiReaction clamp call.1 call.2 current) messages
    calls

/-- The conversations after the calls for the messages of a friend. -/
def chatsAfter (friendId : String) (calls : List ReactionCall) (conversations : P2PConversations) :
    P2PConversations :=
  Reducer.run (fun current call => toggleP2PEmojiReaction friendId call.1 call.2 current)
    conversations calls

/-- The message with the reactions of the initial one. -/
def RoomChatMessage.withReactionsOf (message initial : RoomChatMessage) : RoomChatMessage :=
  { message with
    likes := initial.likes, dislikes := initial.dislikes, userReaction := initial.userReaction
    emojiReactions := initial.emojiReactions, userEmojiReaction := initial.userEmojiReaction }

/-- The message is the initial one but for its reactions, and each count is the
initial one, plus one if the user holds that reaction. -/
structure Tallied (initial message : RoomChatMessage) : Prop where
  likes : message.likes = initial.likes + if message.userReaction = some .like then 1 else 0
  dislikes :
    message.dislikes = initial.dislikes + if message.userReaction = some .dislike then 1 else 0
  emojis : ∀ reaction, message.emojiCount reaction =
    initial.emojiCount reaction + if message.userEmojiReaction = some reaction then 1 else 0
  rest : message.withReactionsOf initial = initial

/-- The message of the private chat is the same one, with the same reactions. -/
structure SameMessage (message : RoomChatMessage) (copy : P2PMessage) : Prop where
  id : copy.id = message.id
  reactions : copy.reactions = message.reactions

/-- What the calls keep of a message of the room: the two polls tally. -/
structure Kept (initial message : RoomChatMessage) : Prop where
  counts : initial.reactions.Counts
  tallies : initial.reactions.Tallies message.reactions
  rest : message.withReactionsOf initial = initial

theorem Kept.tallied {initial message : RoomChatMessage} (h : Kept initial message) :
    Tallied initial message :=
  ⟨h.tallies.votes .like, h.tallies.votes .dislike, h.tallies.emojis, h.rest⟩

theorem exists_kept {messages current : List RoomChatMessage}
    (h : List.Forall₂ Kept messages current) :
    ∀ message ∈ current, ∃ initial, Kept initial message := by
  induction h with
  | nil => simp
  | cons hkept _ ih =>
    intro message hmem
    rcases List.mem_cons.mp hmem with rfl | hmem
    · exact ⟨_, hkept⟩
    · exact ih message hmem

theorem withReactionsOf_toggle (clamp : Int → Int) (reaction : QuickReaction)
    (message initial : RoomChatMessage) :
    (message.toggle clamp reaction).withReactionsOf initial = message.withReactionsOf initial := by
  have hvote : ∀ action, (message.toggleReaction clamp action).withReactionsOf initial =
      message.withReactionsOf initial := fun action => by
    cases action <;> simp only [RoomChatMessage.toggleReaction] <;> split <;> rfl
  have hemoji : ∀ reaction, (message.toggleEmoji clamp reaction).withReactionsOf initial =
      message.withReactionsOf initial := fun reaction => by
    simp only [RoomChatMessage.toggleEmoji]
    split <;> rfl
  cases reaction with
  | thumbsUp => exact hvote .like
  | thumbsDown => exact hvote .dislike
  | _ => exact hemoji _

@[simp] theorem RoomChatMessage.toggle_id (clamp : Int → Int) (reaction : QuickReaction)
    (message : RoomChatMessage) : (message.toggle clamp reaction).id = message.id := by
  have hid := congrArg RoomChatMessage.id
    (withReactionsOf_toggle clamp reaction message message)
  exact hid

section

variable {clamp : Int → Int} (hclamp : ∀ n, 0 ≤ n → clamp n = n)
include hclamp

theorem Kept.toggle {initial message : RoomChatMessage} (h : Kept initial message)
    (reaction : QuickReaction) : Kept initial (message.toggle clamp reaction) := by
  refine ⟨h.counts, ?_, (withReactionsOf_toggle _ _ _ _).trans h.rest⟩
  rw [RoomChatMessage.reactions_toggle clamp reaction h.tallies.proper]
  exact h.tallies.toggle h.counts hclamp reaction

/-- Where the polls tally, nothing is clamped. -/
theorem Kept.toggle_clamp {initial message : RoomChatMessage} (h : Kept initial message)
    (reaction : QuickReaction) : message.toggle clamp reaction = message.toggle id reaction := by
  have hlikes : message.userReaction = some .like →
      clamp (message.likes - 1) = message.likes - 1 :=
    h.tallies.votes.clamp_choice h.counts.votes hclamp
  have hdislikes : message.userReaction = some .dislike →
      clamp (message.dislikes - 1) = message.dislikes - 1 :=
    h.tallies.votes.clamp_choice h.counts.votes hclamp
  have hcount : ∀ {reaction}, message.userEmojiReaction = some reaction →
      clamp (EmojiReactions.count (message.emojiReactions.getD Record.empty) reaction - 1) =
        EmojiReactions.count (message.emojiReactions.getD Record.empty) reaction - 1 :=
    h.tallies.emojis.clamp_choice h.counts.emojis hclamp
  have hemoji : ∀ reaction, message.toggleEmoji clamp reaction =
      message.toggleEmoji id reaction := fun reaction => by
    simp only [RoomChatMessage.toggleEmoji, id]
    split
    · next hsame => rw [hcount hsame]
    · split
      · rfl
      · rfl
      · rfl
      · next hsome => rw [hcount hsome]
  have hvote : ∀ action, message.toggleReaction clamp action =
      message.toggleReaction id action := fun action => by
    obtain hnone | ⟨chosen, hsome⟩ := Option.eq_none_or_eq_some message.userReaction
    · cases action <;> simp [RoomChatMessage.toggleReaction, hnone]
    · cases action <;> cases chosen <;>
        simp [RoomChatMessage.toggleReaction, hsome, hlikes, hdislikes]
  cases reaction with
  | thumbsUp => exact hvote .like
  | thumbsDown => exact hvote .dislike
  | _ => exact hemoji _

theorem keeps_roomToggle {messages current : List RoomChatMessage}
    (h : List.Forall₂ Kept messages current) (messageId : String) (reaction : QuickReaction) :
    List.Forall₂ Kept messages (toggleRoomEmojiReaction clamp messageId reaction current) := by
  rw [toggleRoomEmojiReaction_eq, List.forall₂_map_right_iff]
  refine h.imp fun initial message hkept => ?_
  split
  · exact hkept
  · exact hkept.toggle hclamp reaction

theorem roomToggle_clamp {messages current : List RoomChatMessage}
    (h : List.Forall₂ Kept messages current) (messageId : String) (reaction : QuickReaction) :
    toggleRoomEmojiReaction clamp messageId reaction current =
      toggleRoomEmojiReaction id messageId reaction current := by
  rw [toggleRoomEmojiReaction_eq, toggleRoomEmojiReaction_eq]
  refine List.map_congr_left fun message hmem => ?_
  obtain ⟨initial, hkept⟩ := exists_kept h message hmem
  rw [hkept.toggle_clamp hclamp]

theorem kept_roomAfter {messages : List RoomChatMessage}
    (h : List.Forall₂ Kept messages messages) (calls : List ReactionCall) :
    List.Forall₂ Kept messages (roomAfter clamp calls messages) :=
  (Reducer.eachState_of_forall h fun _ call hcurrent =>
    keeps_roomToggle hclamp hcurrent call.1 call.2).run

theorem roomAfter_clamp {messages : List RoomChatMessage}
    (h : List.Forall₂ Kept messages messages) (calls : List ReactionCall) :
    roomAfter clamp calls messages = roomAfter id calls messages :=
  Reducer.run_congr
    (Reducer.eachState_of_forall h fun _ call hcurrent =>
      keeps_roomToggle hclamp hcurrent call.1 call.2)
    fun _ call hcurrent => roomToggle_clamp hclamp hcurrent call.1 call.2

end

/-- A toggle changes the messages with the id only. -/
theorem roomToggle_others (clamp : Int → Int) (messageId : String) (reaction : QuickReaction)
    (current : List RoomChatMessage) :
    List.Forall₂ (fun before after => before.id ≠ messageId → after = before) current
      (toggleRoomEmojiReaction clamp messageId reaction current) := by
  rw [toggleRoomEmojiReaction_eq, List.forall₂_map_right_iff, List.forall₂_same]
  exact fun message _ hid => if_pos hid

/-! ## The copy for private chats -/

/-- The conversation with the friend holds the messages of the room; nothing
else differs from the conversations at first. -/
structure Copies (friendId : String) (first : P2PConversations) (unreadCount : Nat)
    (messages : List RoomChatMessage) (current : P2PConversations) : Prop where
  friend : ∃ copies, current friendId = some ⟨copies, unreadCount⟩ ∧
    List.Forall₂ SameMessage messages copies
  others : ∀ other, other ≠ friendId → current other = first other

theorem Copies.toggle {friendId : String} {first current : P2PConversations} {unreadCount : Nat}
    {messages : List RoomChatMessage} (h : Copies friendId first unreadCount messages current)
    (hproper : ∀ message ∈ messages, message.reactions.Proper) (messageId : String)
    (reaction : QuickReaction) :
    Copies friendId first unreadCount
      (toggleRoomEmojiReaction atLeastZero messageId reaction messages)
      (toggleP2PEmojiReaction friendId messageId reaction current) := by
  obtain ⟨copies, hfriend, hsame⟩ := h.friend
  simp only [toggleRoomEmojiReaction_eq, toggleP2PEmojiReaction_eq, updateMessages, hfriend]
  refine ⟨⟨_, Record.set_self _ _ _, ?_⟩, fun other hother => ?_⟩
  · rw [List.forall₂_map_left_iff, List.forall₂_map_right_iff]
    refine ((List.forall₂_and_left _ _).mpr ⟨hproper, hsame⟩).imp ?_
    rintro message copy ⟨hmessage, hcopy⟩
    have hcopyProper : copy.reactions.Proper := hcopy.reactions ▸ hmessage
    rw [hcopy.id]
    split
    · exact hcopy
    · refine ⟨?_, ?_⟩
      · rw [copy.toggle_id, message.toggle_id, hcopy.id]
      · rw [copy.reactions_toggle reaction hcopyProper,
          message.reactions_toggle atLeastZero reaction hmessage, hcopy.reactions]
  · rw [Record.set_of_ne _ _ hother]
    exact h.others other hother

theorem copies_chatsAfter {friendId : String} {first : P2PConversations} {unreadCount : Nat}
    {messages : List RoomChatMessage} (hkept : List.Forall₂ Kept messages messages)
    (h : Copies friendId first unreadCount messages first) (calls : List ReactionCall) :
    Copies friendId first unreadCount (roomAfter atLeastZero calls messages)
      (chatsAfter friendId calls first) := by
  have hrelated : List.Forall₂ Kept messages (roomAfter atLeastZero calls messages) ∧
      Copies friendId first unreadCount (roomAfter atLeastZero calls messages)
        (chatsAfter friendId calls first) := by
    refine Reducer.run_related (R := fun current chats => List.Forall₂ Kept messages current ∧
      Copies friendId first unreadCount current chats) ⟨hkept, h⟩ ?_ calls
    rintro current chats call ⟨hcurrent, hcopies⟩
    refine ⟨keeps_roomToggle atLeastZero_of_nonneg hcurrent call.1 call.2, ?_⟩
    refine hcopies.toggle (fun message hmem => ?_) call.1 call.2
    obtain ⟨initial, hinitial⟩ := exists_kept hcurrent message hmem
    exact hinitial.tallies.proper
  exact hrelated.2

/-- **Reactions are counted**, whatever is toggled: each count is the initial
one, plus one where the user holds that reaction, so that none falls below its
initial value; without the clamps the messages are the same; a toggle changes
the message it is for only; and a private chat with the same messages has the
same reactions after the same calls. -/
theorem reactions_counted (messages : List RoomChatMessage)
    (hnone : ∀ message ∈ messages, message.userReaction = none ∧ message.userEmojiReaction = none)
    (hcounts : ∀ message ∈ messages, 0 ≤ message.likes ∧ 0 ≤ message.dislikes ∧
      ∀ reaction, 0 ≤ message.emojiCount reaction)
    (calls : List ReactionCall) :
    List.Forall₂ Tallied messages (roomAfter atLeastZero calls messages) ∧
    List.Forall₂ (fun initial message => initial.likes ≤ message.likes ∧
        initial.dislikes ≤ message.dislikes ∧
        ∀ reaction, initial.emojiCount reaction ≤ message.emojiCount reaction)
      messages (roomAfter atLeastZero calls messages) ∧
    roomAfter atLeastZero calls messages = roomAfter id calls messages ∧
    (∀ messageId reaction, List.Forall₂
      (fun before after => before.id ≠ messageId → after = before)
      (roomAfter atLeastZero calls messages)
      (toggleRoomEmojiReaction atLeastZero messageId reaction
        (roomAfter atLeastZero calls messages))) ∧
    ∀ friendId conversations unreadCount,
      Copies friendId conversations unreadCount messages conversations →
        Copies friendId conversations unreadCount (roomAfter atLeastZero calls messages)
          (chatsAfter friendId calls conversations) := by
  have hkept : List.Forall₂ Kept messages messages := by
    rw [List.forall₂_same]
    intro message hmem
    obtain ⟨hvote, hemoji⟩ := hnone message hmem
    obtain ⟨hlikes, hdislikes, hemojis⟩ := hcounts message hmem
    refine ⟨⟨fun vote => ?_, hemojis⟩, ⟨?_, ?_, ?_⟩, rfl⟩
    · cases vote with
      | like => exact hlikes
      | dislike => exact hdislikes
    · exact Poll.tallies_of_choice_none hvote
    · exact Poll.tallies_of_choice_none hemoji
    · simp [Reactions.Proper, RoomChatMessage.reactions, hemoji]
  have hafter := kept_roomAfter atLeastZero_of_nonneg hkept calls
  refine ⟨hafter.imp fun _ _ h => h.tallied, hafter.imp fun _ _ h => ?_,
    roomAfter_clamp atLeastZero_of_nonneg hkept calls,
    fun messageId reaction => roomToggle_others _ _ _ _,
    fun friendId conversations unreadCount h => copies_chatsAfter hkept h calls⟩
  exact ⟨h.tallies.votes.le .like, h.tallies.votes.le .dislike, h.tallies.emojis.le⟩

/-- Votes and emojis, changed and taken back, at the messages a room starts with. -/
def sampleCalls : List ReactionCall :=
  [("seed-room-message-james", .thumbsUp), ("seed-room-message-james", .joy),
    ("seed-room-message-james", .fire), ("seed-room-message-sarah", .thumbsUp),
    ("seed-room-message-sarah", .thumbsDown), ("seed-room-message-james", .thumbsUp),
    ("seed-room-message-nobody", .heart)]

theorem reactions_counted_seeded :
    List.Forall₂ Tallied seedRoomMessages
      (roomAfter atLeastZero sampleCalls seedRoomMessages) ∧
    (roomAfter atLeastZero sampleCalls seedRoomMessages).map
        (fun message => (message.likes, message.dislikes, message.emojiCount .fire)) =
      [(12, 1, 0), (8, 0, 1), (5, 0, 0)] := by
  have hcount : ∀ reaction, 0 ≤ EmojiReactions.count Record.empty reaction :=
    fun _ => Int.le_refl 0
  have hseeds := reactions_counted seedRoomMessages (by simp [seedRoomMessages])
    (by simpa [seedRoomMessages, RoomChatMessage.emojiCount] using hcount) sampleCalls
  exact ⟨hseeds.1, by decide⟩

end Client

end WaveCast
