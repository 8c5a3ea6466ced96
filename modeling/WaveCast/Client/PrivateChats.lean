import WaveCast.Client.JavaScript
import WaveCast.Client.MockData

/-!
# Private chats

The conversations of `components/room/listener-panel.tsx` and the updaters of
`p2pConversations`. Optional fields are `none` where they are missing, `undefined`
or `null`: every reader treats the three alike.
-/

namespace WaveCast

namespace Client

/-! ## Messages -/

/-- The reactions that are offered at a message: 👍 👎 😂 ❤️ 🔥. -/
inductive QuickReaction where
  | thumbsUp
  | thumbsDown
  | joy
  | heart
  | fire
  deriving DecidableEq

/-- `"like" | "dislike"`. -/
inductive Vote where
  | like
  | dislike
  deriving DecidableEq

abbrev EmojiReactions := Record QuickReaction Int

/-- `emojiReactions[reaction] ?? 0`. -/
def EmojiReactions.count (reactions : EmojiReactions) (reaction : QuickReaction) : Int :=
  (reactions reaction).getD 0

inductive AttachmentKind where
  | file
  | image
  | video
  | other
  deriving DecidableEq

structure Attachment where
  type : AttachmentKind
  name : String
  size : Option Nat
  mimeType : Option String
  sourceLabel : String
  previewUrl : Option String
  downloadUrl : Option String

structure P2PReplyTo where
  name : String
  text : String

structure P2PMessage where
  id : String
  name : String
  avatar : String
  time : String
  text : String
  replyTo : Option P2PReplyTo := none
  isYou : Bool
  isUnread : Option Bool := none
  likes : Option Int := none
  dislikes : Option Int := none
  userReaction : Option Vote := none
  emojiReactions : Option EmojiReactions := none
  userEmojiReaction : Option QuickReaction := none
  attachment : Option Attachment := none

/-- Whether `message.isUnread` is set. -/
def P2PMessage.unread (message : P2PMessage) : Bool := message.isUnread.getD false

structure P2PConversation where
  messages : List P2PMessage
  unreadCount : Nat

abbrev P2PConversations := Record String P2PConversation

/-! ## The seeded conversations -/

/-- `unique.set(person.id, person)`: a `Map` keeps the place of a key it has. -/
def setUnique (unique : List Person) (person : Person) : List Person :=
  if unique.any (·.id = person.id) then
    unique.map fun other => if other.id = person.id then person else other
  else unique ++ [person]

def roomParticipants : List Person :=
  ((room.owner :: room.speakers ++ room.listeners).filter (·.id ≠ alex.id)).foldl setUnique []

/-- `name.split(" ")[0]`. -/
def firstName (name : String) : String := .ofList (name.toList.takeWhile (· ≠ ' '))

def makeSeedConversation (person : Person) (index : Nat) : P2PConversation :=
  let hasHistory := index % 3 ≠ 2
  { messages :=
      if hasHistory then
        [{ id := "seed-" ++ person.id ++ "-0", name := person.name, avatar := person.avatar,
           time := "2m ago", text := firstName person.name ++ " was asking a question.",
           isYou := false, isUnread := some (index % 3 = 0), likes := some 0, dislikes := some 0 }]
      else []
    unreadCount := if hasHistory ∧ index % 3 = 0 then 1 else 0 }

/-- The initial `p2pConversations`, from the participants of the room. -/
def seedConversations (participants : List Person) : P2PConversations :=
  participants.zipIdx.foldl (fun acc (person, index) =>
    acc.set person.id (makeSeedConversation person index)) Record.empty

/-! ## The updaters -/

def markConversationThreadAsRead (personId : String) (current : P2PConversations) :
    P2PConversations :=
  match current personId with
  | none => current
  | some conversation =>
    if conversation.messages.any (·.unread) then current
    else if conversation.unreadCount = 0 then current
    else current.set personId
      { messages := conversation.messages.map fun message =>
          { message with isUnread := some false }
        unreadCount := 0 }

/-- What `toggleP2PMessageReaction` makes of the message it is for. -/
def P2PMessage.toggleReaction (action : Vote) (message : P2PMessage) : P2PMessage :=
  let likes := message.likes.getD 0
  let dislikes := message.dislikes.getD 0
  if message.userReaction = some action then
    match action with
    | .like => { message with
        likes := some (atLeastZero (likes - 1)), dislikes := some dislikes, userReaction := none }
    | .dislike => { message with
        likes := some likes, dislikes := some (atLeastZero (dislikes - 1)), userReaction := none }
  else
    let likes := if message.userReaction = some .like then atLeastZero (likes - 1) else likes
    let dislikes :=
      if message.userReaction = some .dislike then atLeastZero (dislikes - 1) else dislikes
    match action with
    | .like => { message with
        likes := some (likes + 1), dislikes := some dislikes, userReaction := some .like }
    | .dislike => { message with
        likes := some likes, dislikes := some (dislikes + 1), userReaction := some .dislike }

/-- What `toggleP2PEmojiReaction` makes of the message it is for. -/
def P2PMessage.toggleEmoji (reaction : QuickReaction) (message : P2PMessage) : P2PMessage :=
  let emojiReactions := message.emojiReactions.getD Record.empty
  let currentCount := EmojiReactions.count emojiReactions reaction
  if message.userEmojiReaction = some reaction then
    { message with
      emojiReactions := some (emojiReactions.set reaction (atLeastZero (currentCount - 1)))
      userEmojiReaction := none }
  else
    let lowered := match message.userEmojiReaction with
      | none | some .thumbsUp | some .thumbsDown => emojiReactions
      | some currentReaction => emojiReactions.set currentReaction
          (atLeastZero (EmojiReactions.count emojiReactions currentReaction - 1))
    { message with
      emojiReactions := some (lowered.set reaction (currentCount + 1))
      userEmojiReaction := some reaction }

/-- Update the messages of a conversation that have the id. -/
def updateMessages (friendId messageId : String) (f : P2PMessage → P2PMessage)
    (current : P2PConversations) : P2PConversations :=
  match current friendId with
  | none => current
  | some conversation => current.set friendId
      { conversation with
        messages := conversation.messages.map fun message =>
          if message.id ≠ messageId then message else f message }

def toggleP2PMessageReaction (friendId messageId : String) (action : Vote) :
    P2PConversations → P2PConversations :=
  updateMessages friendId messageId (.toggleReaction action)

def toggleP2PEmojiReaction (friendId messageId : String) (reaction : QuickReaction) :
    P2PConversations → P2PConversations :=
  match reaction with
  | .thumbsUp => toggleP2PMessageReaction friendId messageId .like
  | .thumbsDown => toggleP2PMessageReaction friendId messageId .dislike
  | _ => updateMessages friendId messageId (.toggleEmoji reaction)

/-- The conversation with the friend, with a message more and none unread. -/
def appendP2PMessage (friendId : String) (message : P2PMessage) (current : P2PConversations) :
    P2PConversations :=
  let updated := (current friendId).getD ⟨[], 0⟩
  current.set friendId ⟨updated.messages ++ [message], 0⟩

/-- `activeFriend?.id` where it is not falsy. -/
def friendId (activeFriend : Option Person) : Option String :=
  (activeFriend.map (·.id)).filter (· ≠ "")

/-- The message of `sendP2PMessage`. -/
def textMessage (messageId cleanText : String) (replying : Option P2PMessage) : P2PMessage where
  id := messageId
  name := "You"
  avatar := alex.avatar
  time := "just now"
  text := cleanText
  replyTo := replying.map fun message => ⟨message.name, message.text⟩
  isYou := true
  likes := some 0
  dislikes := some 0
  emojiReactions := some Record.empty

def sendP2PMessage (activeFriend : Option Person) (p2pText : String)
    (replyingP2PMessage : Option P2PMessage) (messageId : String) (current : P2PConversations) :
    P2PConversations :=
  match friendId activeFriend with
  | none => current
  | some friendId =>
    let cleanText := trim p2pText
    if cleanText = "" then current
    else appendP2PMessage friendId (textMessage messageId cleanText replyingP2PMessage) current

/-- A `File` that was picked. -/
structure File where
  name : String
  size : Nat
  type : String

def getAttachmentLabel : AttachmentKind → String
  | .image => "Image"
  | .video => "Video"
  | .other => "Other"
  | .file => "File"

/-- `URL.createObjectURL(file)` gave `objectUrl`. -/
def getAttachmentSummary (file : File) (kind : AttachmentKind) (objectUrl : String) :
    Attachment :=
  let type := if kind = .other then .file else kind
  { type
    name := file.name
    size := some file.size
    mimeType := some (if file.type = "" then "application/octet-stream" else file.type)
    sourceLabel := getAttachmentLabel type
    previewUrl := if type = .image ∨ type = .video then some objectUrl else none
    downloadUrl := some objectUrl }

/-- The message of `appendP2PMessageWithAttachment`. -/
def attachmentMessage (messageId : String) (file : File) (kind : AttachmentKind)
    (objectUrl : String) : P2PMessage :=
  let attachment := getAttachmentSummary file kind objectUrl
  let sourceLabel :=
    if kind = .file then "a file" else "an " ++ attachment.sourceLabel.map Char.toLower
  { id := messageId, name := "You", avatar := alex.avatar, time := "just now"
    text := "Shared " ++ sourceLabel ++ ": " ++ file.name
    isYou := true, likes := some 0, dislikes := some 0
    emojiReactions := some Record.empty, attachment }

def appendP2PMessageWithAttachment (activeFriend : Option Person) (file : Option File)
    (kind : AttachmentKind) (objectUrl messageId : String) (current : P2PConversations) :
    P2PConversations :=
  match file, friendId activeFriend with
  | some file, some friendId =>
    appendP2PMessage friendId (attachmentMessage messageId file kind objectUrl) current
  | _, _ => current

end Client

end WaveCast
