import Steller.Resp.Frame

/-!
# Lifting frames into commands

`Command::try_from`: an array of bulk strings, the first of which is the verb.
Verbs and `SET` options are compared in ASCII lower case; everything else is
carried over byte for byte.

The clock is read in three arms only — `SET … EX`, `SET … PX` and `EXPIRE` —
so it is an argument, the answer `Milliseconds::now` would give.  The arms that
take one key share `oneKey`, and the arms that take a key and an amount share
`keyAmount`; the order of their checks is the source's, in which a surplus
argument is reported *before* `EXPIRE` reads the clock but *after* `SET … EX`
does.

`tryFrom_ofWriteCommand` is what the log rests on: a logged mutation lifts back
into itself, whatever the clock says or fails to say.
-/

namespace Steller

/-- Failure turning a frame into a command. -/
inductive CommandFromFrameError where
  | commandError (error : CommandError)
  | unexpectedFrame
  | systemTime (error : SystemTimeError)
deriving DecidableEq

namespace Command

/-- The verbs the server implements. -/
inductive Verb where
  | get | set | del | ping | exists | expire | expireat | pexpireat | ttl | persist
  | subscribe | unsubscribe | publish
deriving DecidableEq

/-- The verb table, over a lower-cased name. -/
def Verb.ofBytes (command : Bytes) : Option Verb :=
  if command = ascii "get" then some .get
  else if command = ascii "set" then some .set
  else if command = ascii "del" then some .del
  else if command = ascii "ping" then some .ping
  else if command = ascii "exists" then some .exists
  else if command = ascii "expire" then some .expire
  else if command = ascii "expireat" then some .expireat
  else if command = ascii "pexpireat" then some .pexpireat
  else if command = ascii "ttl" then some .ttl
  else if command = ascii "persist" then some .persist
  else if command = ascii "subscribe" then some .subscribe
  else if command = ascii "unsubscribe" then some .unsubscribe
  else if command = ascii "publish" then some .publish
  else none

/-- The options of `SET`. -/
inductive SetOption where
  | ex | px | exat | pxat
deriving DecidableEq

/-- The option table, over a lower-cased name. -/
def SetOption.ofBytes (option : Bytes) : Option SetOption :=
  if option = ascii "ex" then some .ex
  else if option = ascii "px" then some .px
  else if option = ascii "exat" then some .exat
  else if option = ascii "pxat" then some .pxat
  else none

/-- A bulk string's bytes as a `u64`. -/
def parseAmount (bytes : Bytes) : Except CommandFromFrameError UInt64 :=
  match fromUtf8 bytes with
  | .error e => .error (.commandError (.utf8 e))
  | .ok () => match parseU64 bytes with
    | .error e => .error (.commandError (.parseInt e))
    | .ok n => .ok n

/-- `Milliseconds::now()?`. -/
def readClock (now : Reading) : Except CommandFromFrameError Milliseconds :=
  now.mapError .systemTime

/-- The absolute deadline each `SET` option stands for. -/
def SetOption.deadline (now : Reading) (amount : UInt64) :
    SetOption → Except CommandFromFrameError Milliseconds
  | .ex => (readClock now).map (·.saturatingAdd (.ofSeconds ⟨amount⟩))
  | .px => (readClock now).map (·.saturatingAdd ⟨amount⟩)
  | .exat => .ok (.ofSeconds ⟨amount⟩)
  | .pxat => .ok ⟨amount⟩

/-- Next frame from the iterator, which must be a bulk string. -/
def nextBulk : List Frame → Except CommandFromFrameError (Blob × List Frame)
  | [] => .error (.commandError .notEnoughParts)
  | .array _ :: _ => .error .unexpectedFrame
  | .bulkString bytes :: iter => .ok (bytes, iter)

/-- Reject arguments left over after the last one a command takes. -/
def noMore (iter : List Frame) : Except CommandFromFrameError Unit :=
  if iter.isEmpty then .ok () else .error (.commandError .tooManyParts)

/-- The arms that take exactly one key. -/
def oneKey (make : Blob → Command) (iter : List Frame) : Except CommandFromFrameError Command := do
  let (key, iter) ← nextBulk iter
  noMore iter
  pure (make key)

/-- The arms that take a key and an amount, converted once no argument is left over. -/
def keyAmount (deadline : UInt64 → Except CommandFromFrameError Milliseconds)
    (iter : List Frame) : Except CommandFromFrameError Command := do
  let (key, iter) ← nextBulk iter
  let (bytes, iter) ← nextBulk iter
  let amount ← parseAmount bytes.bytes
  noMore iter
  let expiresAt ← deadline amount
  pure (expireAt key expiresAt)

/-- `SET key value [EX s | PX ms | EXAT unix-s | PXAT unix-ms]`. -/
def parseSet (now : Reading) (iter : List Frame) : Except CommandFromFrameError Command := do
  let (key, iter) ← nextBulk iter
  let (value, iter) ← nextBulk iter
  match iter with
  | [] => pure (set key value none)
  | .array _ :: _ => .error .unexpectedFrame
  | .bulkString option :: iter =>
      match SetOption.ofBytes (toAsciiLowercase option.bytes) with
      | none => .error (.commandError .syntaxError)
      | some option => do
          let (bytes, iter) ← nextBulk iter
          let amount ← parseAmount bytes.bytes
          let expiresAt ← option.deadline now amount
          noMore iter
          pure (set key value (some expiresAt))

/-- `PING [message]`. -/
def parsePing : List Frame → Except CommandFromFrameError Command
  | [] => .ok (.ping none)
  | .array _ :: _ => .error .unexpectedFrame
  | .bulkString message :: iter => do
      noMore iter
      pure (.ping (some message))

/-- The remaining frames, all of which must be bulk strings. -/
def bulkStrings : List Frame → Except CommandFromFrameError (List Blob)
  | [] => .ok []
  | .array _ :: _ => .error .unexpectedFrame
  | .bulkString channelId :: iter => do
      let channelIds ← bulkStrings iter
      pure (channelId :: channelIds)

/-- `SUBSCRIBE channel…`, which needs at least one channel. -/
def parseSubscribe (iter : List Frame) : Except CommandFromFrameError Command := do
  let channelIds ← bulkStrings iter
  if channelIds.isEmpty then .error (.commandError .notEnoughParts)
  else pure (.channel (.subscribe channelIds))

/-- `UNSUBSCRIBE [channel…]`. -/
def parseUnsubscribe (iter : List Frame) : Except CommandFromFrameError Command := do
  let channelIds ← bulkStrings iter
  pure (.channel (.unsubscribe channelIds))

/-- `PUBLISH channel message`.  Both arguments are counted before either is looked at. -/
def parsePublish : List Frame → Except CommandFromFrameError Command
  | .bulkString channelId :: .bulkString message :: iter => do
      noMore iter
      pure (.channel (.publish channelId message))
  | _ :: _ :: _ => .error .unexpectedFrame
  | _ => .error (.commandError .notEnoughParts)

/-- `TryFrom<Frame> for Command`, with the answer the clock would give. -/
def tryFrom (now : Reading) : Frame → Except CommandFromFrameError Command
  | .bulkString _ => .error .unexpectedFrame
  | .array [] => .error (.commandError .notEnoughParts)
  | .array (.array _ :: _) => .error .unexpectedFrame
  | .array (.bulkString command :: iter) =>
      match Verb.ofBytes (toAsciiLowercase command.bytes) with
      | some .get => oneKey get iter
      | some .set => parseSet now iter
      | some .del => oneKey delete iter
      | some .ping => parsePing iter
      | some .exists => oneKey «exists» iter
      | some .expire => keyAmount
          (fun amount ↦ (readClock now).map (·.saturatingAdd (.ofSeconds ⟨amount⟩))) iter
      | some .expireat => keyAmount (fun amount ↦ .ok (.ofSeconds ⟨amount⟩)) iter
      | some .pexpireat => keyAmount (fun amount ↦ .ok ⟨amount⟩) iter
      | some .ttl => oneKey ttl iter
      | some .persist => oneKey persist iter
      | some .subscribe => parseSubscribe iter
      | some .unsubscribe => parseUnsubscribe iter
      | some .publish => parsePublish iter
      | none => .error (.commandError .unrecognizedCommand)

/-! ## Logged commands -/

/-- A deadline written in decimal is read back exactly. -/
theorem parseAmount_decimal (n : UInt64) : parseAmount (decimal n.toNat) = .ok n := by
  rw [parseAmount, fromUtf8_decimal, parseU64_decimal n.toNat_lt, UInt64.ofNat_toNat]

/-- A logged mutation lifts back into itself, whatever the clock does. -/
theorem tryFrom_ofWriteCommand (now : Reading) (wc : WriteCommand) :
    tryFrom now (.ofWriteCommand wc) = .ok (.cache (.write wc)) := by
  cases wc with
  | set key value expiresAt =>
      cases expiresAt with
      | none => rfl
      | some t =>
          change (parseAmount (decimal t.get.toNat) >>= fun amount ↦
            (Except.ok ⟨amount⟩ : Except CommandFromFrameError Milliseconds) >>= fun expiresAt ↦
              noMore [] >>= fun _ ↦ pure (set key value (some expiresAt))) = _
          rw [parseAmount_decimal]
          rfl
  | delete key => rfl
  | expireAt key t =>
      change (parseAmount (decimal t.get.toNat) >>= fun amount ↦
        noMore [] >>= fun _ ↦
          (Except.ok ⟨amount⟩ : Except CommandFromFrameError Milliseconds) >>= fun expiresAt ↦
            pure (Command.expireAt key expiresAt)) = _
      rw [parseAmount_decimal]
      rfl
  | persist key => rfl

end Command

end Steller
