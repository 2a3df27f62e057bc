import Steller.Domain.Time
import Steller.Std.Numeral

/-!
# Commands and outcomes

The parsed commands, sorted by who handles them, and what they produce.  Every
deadline in a `WriteCommand` is absolute: the relative forms are converted at
parse time and have no representation here.
-/

namespace Steller

/-- A command that reads one key without changing its value. -/
inductive ReadCommand where
  | get (key : Blob)
  | exists (key : Blob)
  | ttl (key : Blob)
deriving DecidableEq

/-- A command that changes state, and is therefore logged. -/
inductive WriteCommand where
  | set (key value : Blob) (expiresAt : Option Milliseconds)
  | delete (key : Blob)
  | expireAt (key : Blob) (expiresAt : Milliseconds)
  | persist (key : Blob)
deriving DecidableEq

/-- The key a read names. -/
def ReadCommand.key : ReadCommand → Blob
  | .get key | .exists key | .ttl key => key

/-- The key a write names. -/
def WriteCommand.key : WriteCommand → Blob
  | .set key _ _ | .delete key | .expireAt key _ | .persist key => key

/-- A command the cache executes, split by whether it changes state. -/
inductive CacheCommand where
  | read (command : ReadCommand)
  | write (command : WriteCommand)
deriving DecidableEq

/-- The key a cache command names. -/
def CacheCommand.key : CacheCommand → Blob
  | .read command => command.key
  | .write command => command.key

@[simp] theorem CacheCommand.key_write (command : WriteCommand) :
    (CacheCommand.write command).key = command.key := rfl

/-- A parsed pub/sub command. -/
inductive ChannelCommand where
  | subscribe (channelIds : List Blob)
  | unsubscribe (channelIds : List Blob)
  | publish (channelId message : Blob)
deriving DecidableEq

/-- One channel's entry in a subscribe or unsubscribe outcome. -/
structure SubUnsubInnerEntry where
  /-- The channel acted on, or `none` for the null-channel ack. -/
  channelId : Option Blob
  /-- How many channels the session is subscribed to once this entry's change has landed. -/
  subscriptionCount : Nat
deriving DecidableEq

/-- An entry naming a concrete channel. -/
def SubUnsubInnerEntry.new (channelId : Blob) (subscriptionCount : Nat) : SubUnsubInnerEntry :=
  ⟨some channelId, subscriptionCount⟩

/-- The null-channel entry. -/
def SubUnsubInnerEntry.newNull (subscriptionCount : Nat) : SubUnsubInnerEntry :=
  ⟨none, subscriptionCount⟩

/-- The result of handling a `ChannelCommand`, before it hits the wire. -/
inductive ChannelCommandOutcome where
  | subscribe (inner : List SubUnsubInnerEntry)
  | unsubscribe (inner : List SubUnsubInnerEntry)
  | publish (sentCount : UInt32)
deriving DecidableEq

/-- A parsed client command. -/
inductive Command where
  | cache (command : CacheCommand)
  | channel (command : ChannelCommand)
  | ping (message : Option Blob)
deriving DecidableEq

namespace Command

/-- A `GET` of `key`. -/
def get (key : Blob) : Command := .cache (.read (.get key))

/-- An `EXISTS` of `key`. -/
def «exists» (key : Blob) : Command := .cache (.read (.exists key))

/-- A `TTL` of `key`. -/
def ttl (key : Blob) : Command := .cache (.read (.ttl key))

/-- A `SET` of `key` to `value`, with an optional absolute deadline. -/
def set (key value : Blob) (expiresAt : Option Milliseconds) : Command :=
  .cache (.write (.set key value expiresAt))

/-- A `DEL` of `key`. -/
def delete (key : Blob) : Command := .cache (.write (.delete key))

/-- A deadline on `key`. -/
def expireAt (key : Blob) (expiresAt : Milliseconds) : Command :=
  .cache (.write (.expireAt key expiresAt))

/-- A `PERSIST` of `key`. -/
def persist (key : Blob) : Command := .cache (.write (.persist key))

end Command

/-- Why a well-formed frame did not make a valid command. -/
inductive CommandError where
  | unrecognizedCommand
  | notEnoughParts
  | tooManyParts
  | syntaxError
  | utf8 (error : Utf8Error)
  | parseInt (error : ParseIntError)
deriving DecidableEq

/-- The three things `TTL` can say about a key. -/
inductive TtlOutcome where
  | keyNotFound
  | ttlNotFound
  | some (seconds : Seconds)
deriving DecidableEq

/-- What a cache command produced, in domain terms. -/
inductive CommandOutcome where
  | value (value : Option Blob)
  | ok
  | bool (b : Bool)
  | ttl (outcome : TtlOutcome)
  | pong (message : Option Blob)
  | integer (n : Int)
deriving DecidableEq

end Steller
