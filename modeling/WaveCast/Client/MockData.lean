/-!
# The seeded data of the client

The people, the room and the speaker requests that the client starts from, with
the fields its panels and stores read.
-/

namespace WaveCast

namespace Client

structure Person where
  id : String
  name : String
  avatar : String
  deriving DecidableEq

structure Room where
  owner : Person
  speakers : List Person
  listeners : List Person

inductive RequestStatus where
  | pending
  | approved
  | declined
  deriving DecidableEq

structure SpeakerRequest where
  id : String
  person : Person
  message : String
  requestedAt : String
  status : RequestStatus
  deriving DecidableEq

def avatar (id : Nat) : String := "https://i.pravatar.cc/160?img=" ++ toString id

/-- The current user. -/
def alex : Person := ⟨"user_brian", "Brian Miller", avatar 12⟩

def people : List Person :=
  [⟨"user_alice", "Alice Johnson", avatar 47⟩, ⟨"user_brian", "Brian Miller", avatar 12⟩,
    ⟨"user_carol", "Carol Davis", avatar 32⟩, ⟨"user_sarah", "Sarah Wilson", avatar 13⟩,
    ⟨"user_james", "James Lee", avatar 14⟩, ⟨"user_priya", "Priya Shah", avatar 44⟩,
    ⟨"user_wade", "Wade Warren", avatar 15⟩, ⟨"user_jenny", "Jenny Wilson", avatar 49⟩,
    ⟨"user_arla", "Arlene McCoy", avatar 5⟩, ⟨"user_cody", "Cody Fisher", avatar 7⟩,
    ⟨"user_dianne", "Dianne Russell", avatar 25⟩, ⟨"user_esther", "Esther Howard", avatar 31⟩,
    ⟨"user_floyd", "Floyd Miles", avatar 20⟩, ⟨"user_brooklyn", "Brooklyn Simmons", avatar 18⟩]

/-- `people[index]`. -/
def person (index : Nat) (h : index < people.length := by decide) : Person :=
  people.get ⟨index, h⟩

def room : Room where
  owner := alex
  speakers := [person 0, person 1, person 2]
  listeners := (people.drop 1).take 13

def speakerRequests : List SpeakerRequest :=
  [{ id := "request_wade", person := person 6,
     message := "I'd love to share my thoughts on this topic.",
     requestedAt := "2m ago", status := .pending },
   { id := "request_jenny", person := person 7,
     message := "Can I discuss the real-world use cases?",
     requestedAt := "4m ago", status := .pending }]

end Client

end WaveCast
