import Steller.Resp.Command
import Steller.Resp.Codec

/-!
# The command language

What a client may write.  A request is a verb, in any mixture of upper and lower
case, and the arguments the verb takes; on the wire it is an array of bulk
strings.  `Form` lists the forms, one constructor each, and `Request.command` is
what a request means at a reading of the clock.

`tryFrom_eq_ok_iff` says that the parser accepts this language and no other: an
array in the place of an argument, an argument too few or too many, an option
without its amount or an amount that is not a numeral are all outside of it.
-/

namespace Steller

/-! ## Letters -/

/-- An upper-case ASCII letter. -/
def IsUpper (b : UInt8) : Prop := 65 ≤ b ∧ b ≤ 90

/-- The same byte, or the same ASCII letter in the other case. -/
def SameLetter (a b : UInt8) : Prop := a = b ∨ IsUpper a ∧ b = a + 32 ∨ IsUpper b ∧ a = b + 32

/-- `<[u8]>::eq_ignore_ascii_case`, as a relation. -/
def EqIgnoreAsciiCase : Bytes → Bytes → Prop := List.Forall₂ SameLetter

theorem toAsciiLowercaseByte_eq_iff {a b : UInt8} :
    toAsciiLowercaseByte a = toAsciiLowercaseByte b ↔ SameLetter a b := by
  unfold toAsciiLowercaseByte SameLetter IsUpper
  simp only [UInt8.le_iff_toNat_le, ← UInt8.toNat_inj]
  split <;> split <;> simp only [UInt8.toNat_add, UInt8.reduceToNat] at * <;> omega

/-- Two texts agree up to case when they agree in lower case. -/
theorem toAsciiLowercase_eq_iff {a b : Bytes} :
    toAsciiLowercase a = toAsciiLowercase b ↔ EqIgnoreAsciiCase a b := by
  rw [toAsciiLowercase, toAsciiLowercase, ← List.forall₂_eq_eq_eq, List.forall₂_map_left_iff,
    List.forall₂_map_right_iff, EqIgnoreAsciiCase]
  simp only [toAsciiLowercaseByte_eq_iff]

namespace Command

/-- The name of a verb. -/
def Verb.name : Verb → String
  | .get => "get"
  | .set => "set"
  | .del => "del"
  | .ping => "ping"
  | .exists => "exists"
  | .expire => "expire"
  | .expireat => "expireat"
  | .pexpireat => "pexpireat"
  | .ttl => "ttl"
  | .persist => "persist"
  | .subscribe => "subscribe"
  | .unsubscribe => "unsubscribe"
  | .publish => "publish"

/-- The name of an option. -/
def SetOption.name : SetOption → String
  | .ex => "ex"
  | .px => "px"
  | .exat => "exat"
  | .pxat => "pxat"

/-- The word names the verb, whatever its case. -/
def Verb.Names (verb : Verb) (word : Blob) : Prop :=
  EqIgnoreAsciiCase word.bytes (ascii verb.name)

/-- The word names the option, whatever its case. -/
def SetOption.Names (option : SetOption) (word : Blob) : Prop :=
  EqIgnoreAsciiCase word.bytes (ascii option.name)

/-- The row of a table that was hit, or the rest of the table. -/
theorem or_of_ite_eq_some {α : Type} {p : Prop} [Decidable p] {a b : α} {rest : Option α}
    (h : (if p then some a else rest) = some b) : p ∧ a = b ∨ rest = some b := by
  split at h
  · next hp => exact .inl ⟨hp, Option.some.inj h⟩
  · exact .inr h

theorem Verb.ofBytes_eq_some_iff {bytes : Bytes} {verb : Verb} :
    Verb.ofBytes bytes = some verb ↔ bytes = ascii verb.name := by
  constructor
  · intro h
    unfold Verb.ofBytes at h
    iterate 13
      rcases or_of_ite_eq_some h with ⟨hbytes, rfl⟩ | h
      · exact hbytes
    cases h
  · rintro rfl
    cases verb <;> rfl

theorem SetOption.ofBytes_eq_some_iff {bytes : Bytes} {option : SetOption} :
    SetOption.ofBytes bytes = some option ↔ bytes = ascii option.name := by
  constructor
  · intro h
    unfold SetOption.ofBytes at h
    iterate 4
      rcases or_of_ite_eq_some h with ⟨hbytes, rfl⟩ | h
      · exact hbytes
    cases h
  · rintro rfl
    cases option <;> rfl

theorem Verb.names_iff {verb : Verb} {word : Blob} :
    verb.Names word ↔ Verb.ofBytes (toAsciiLowercase word.bytes) = some verb := by
  have hlower : toAsciiLowercase (ascii verb.name) = ascii verb.name := by cases verb <;> rfl
  rw [Verb.Names, ← toAsciiLowercase_eq_iff, hlower, Verb.ofBytes_eq_some_iff]

theorem SetOption.names_iff {option : SetOption} {word : Blob} :
    option.Names word ↔ SetOption.ofBytes (toAsciiLowercase word.bytes) = some option := by
  have hlower : toAsciiLowercase (ascii option.name) = ascii option.name := by cases option <;> rfl
  rw [SetOption.Names, ← toAsciiLowercase_eq_iff, hlower, SetOption.ofBytes_eq_some_iff]

end Command

/-! ## Requests -/

/-- What a client asks for: a verb and its arguments. -/
inductive Request where
  | ping (message : Option Blob)
  | get (key : Blob)
  | del (key : Blob)
  | exists (key : Blob)
  | ttl (key : Blob)
  | persist (key : Blob)
  | set (key value : Blob) (option : Option (Command.SetOption × UInt64))
  | expire (key : Blob) (seconds : UInt64)
  | expireat (key : Blob) (seconds : UInt64)
  | pexpireat (key : Blob) (millis : UInt64)
  | subscribe (channelIds : List Blob)
  | unsubscribe (channelIds : List Blob)
  | publish (channelId message : Blob)

/-- The words of a request, in each of its forms. -/
inductive Form : List Blob → Request → Prop
  | ping {w : Blob} : Command.Verb.ping.Names w → Form [w] (.ping none)
  | pingMessage {w : Blob} (message : Blob) : Command.Verb.ping.Names w →
      Form [w, message] (.ping (some message))
  | get {w : Blob} (key : Blob) : Command.Verb.get.Names w → Form [w, key] (.get key)
  | del {w : Blob} (key : Blob) : Command.Verb.del.Names w → Form [w, key] (.del key)
  | exists {w : Blob} (key : Blob) : Command.Verb.exists.Names w → Form [w, key] (.exists key)
  | ttl {w : Blob} (key : Blob) : Command.Verb.ttl.Names w → Form [w, key] (.ttl key)
  | persist {w : Blob} (key : Blob) : Command.Verb.persist.Names w → Form [w, key] (.persist key)
  | set {w : Blob} (key value : Blob) : Command.Verb.set.Names w →
      Form [w, key, value] (.set key value none)
  | setOption {w o amount : Blob} {option : Command.SetOption} {n : UInt64} (key value : Blob) :
      Command.Verb.set.Names w → option.Names o → IsNumeral amount.bytes n.toNat →
      Form [w, key, value, o, amount] (.set key value (some (option, n)))
  | expire {w amount : Blob} {n : UInt64} (key : Blob) : Command.Verb.expire.Names w →
      IsNumeral amount.bytes n.toNat → Form [w, key, amount] (.expire key n)
  | expireat {w amount : Blob} {n : UInt64} (key : Blob) : Command.Verb.expireat.Names w →
      IsNumeral amount.bytes n.toNat → Form [w, key, amount] (.expireat key n)
  | pexpireat {w amount : Blob} {n : UInt64} (key : Blob) : Command.Verb.pexpireat.Names w →
      IsNumeral amount.bytes n.toNat → Form [w, key, amount] (.pexpireat key n)
  | subscribe {w : Blob} {channelIds : List Blob} : Command.Verb.subscribe.Names w →
      channelIds ≠ [] → Form (w :: channelIds) (.subscribe channelIds)
  | unsubscribe {w : Blob} (channelIds : List Blob) : Command.Verb.unsubscribe.Names w →
      Form (w :: channelIds) (.unsubscribe channelIds)
  | publish {w : Blob} (channelId message : Blob) : Command.Verb.publish.Names w →
      Form [w, channelId, message] (.publish channelId message)

/-- An array of bulk strings. -/
def Frame.ofWords (words : List Blob) : Frame := .array (words.map .bulkString)

namespace Command

/-- The deadline an option stands for, at a reading of the clock. -/
def SetOption.absolute (now : Milliseconds) (amount : UInt64) : SetOption → Milliseconds
  | .ex => now.saturatingAdd (.ofSeconds ⟨amount⟩)
  | .px => now.saturatingAdd ⟨amount⟩
  | .exat => .ofSeconds ⟨amount⟩
  | .pxat => ⟨amount⟩

end Command

/-- What a request means at a reading of the clock. -/
def Request.command (now : Milliseconds) : Request → Command
  | .ping message => .ping message
  | .get key => .get key
  | .del key => .delete key
  | .exists key => .exists key
  | .ttl key => .ttl key
  | .persist key => .persist key
  | .set key value option => .set key value (option.map fun o ↦ o.1.absolute now o.2)
  | .expire key seconds => .expireAt key (Command.SetOption.ex.absolute now seconds)
  | .expireat key seconds => .expireAt key (Command.SetOption.exat.absolute now seconds)
  | .pexpireat key millis => .expireAt key (Command.SetOption.pxat.absolute now millis)
  | .subscribe channelIds => .channel (.subscribe channelIds)
  | .unsubscribe channelIds => .channel (.unsubscribe channelIds)
  | .publish channelId message => .channel (.publish channelId message)

/-! ## The arms of the parser -/

theorem bind_eq_ok_iff {ε α β : Type} {x : Except ε α} {f : α → Except ε β} {b : β} :
    (x >>= f) = .ok b ↔ ∃ a, x = .ok a ∧ f a = .ok b := by
  cases x with
  | error e => exact ⟨nofun, nofun⟩
  | ok a => exact ⟨fun h ↦ ⟨a, rfl, h⟩, fun ⟨_, ha, h⟩ ↦ Except.ok.inj ha ▸ h⟩

namespace Command

theorem nextBulk_eq_ok_iff {iter : List Frame} {bytes : Blob} {rest : List Frame} :
    nextBulk iter = .ok (bytes, rest) ↔ iter = .bulkString bytes :: rest := by
  rcases iter with _ | ⟨_ | _, _⟩ <;> simp [nextBulk]

theorem noMore_eq_ok_iff {iter : List Frame} : noMore iter = .ok () ↔ iter = [] := by
  cases iter <;> simp [noMore]

/-- The end of every arm that takes a fixed number of arguments. -/
theorem noMore_bind_eq_ok_iff {iter : List Frame} {made command : Command} :
    (noMore iter >>= fun _ ↦ pure made) = Except.ok command ↔ iter = [] ∧ command = made := by
  rw [bind_eq_ok_iff]
  constructor
  · rintro ⟨⟨⟩, hrest, h⟩
    exact ⟨noMore_eq_ok_iff.1 hrest, (Except.ok.inj h).symm⟩
  · rintro ⟨rfl, rfl⟩
    exact ⟨(), rfl, rfl⟩

theorem parseAmount_eq_ok_iff {bytes : Bytes} {n : UInt64} :
    parseAmount bytes = .ok n ↔ IsNumeral bytes n.toNat := by
  rw [← parseU64_eq_ok_iff, parseAmount]
  constructor
  · intro h
    cases hutf8 : fromUtf8 bytes with
    | error e => rw [hutf8] at h; cases h
    | ok u =>
        rw [hutf8] at h
        cases hp : parseU64 bytes with
        | error e => rw [hp] at h; cases h
        | ok m => rw [hp] at h; cases h; rfl
  · intro h
    rw [(parseU64_eq_ok_iff.1 h).fromUtf8, h]

theorem oneKey_eq_ok_iff {make : Blob → Command} {iter : List Frame} {command : Command} :
    oneKey make iter = .ok command ↔ ∃ key, iter = [.bulkString key] ∧ command = make key := by
  rw [oneKey, bind_eq_ok_iff]
  constructor
  · rintro ⟨⟨key, rest⟩, hkey, h⟩
    obtain ⟨hrest, hcommand⟩ := noMore_bind_eq_ok_iff.1 h
    rw [nextBulk_eq_ok_iff.1 hkey, hrest]
    exact ⟨key, rfl, hcommand⟩
  · rintro ⟨key, rfl, rfl⟩
    exact ⟨_, rfl, rfl⟩

theorem keyAmount_eq_ok_iff {deadline : UInt64 → Except CommandFromFrameError Milliseconds}
    {iter : List Frame} {command : Command} :
    keyAmount deadline iter = .ok command ↔ ∃ (key amount : Blob) (n : UInt64) (t : Milliseconds),
      iter = [.bulkString key, .bulkString amount] ∧ IsNumeral amount.bytes n.toNat ∧
        deadline n = .ok t ∧ command = .expireAt key t := by
  rw [keyAmount, bind_eq_ok_iff]
  constructor
  · rintro ⟨⟨key, rest⟩, hkey, h⟩
    obtain ⟨⟨amount, rest'⟩, hamount, h⟩ := bind_eq_ok_iff.1 h
    obtain ⟨n, hn, h⟩ := bind_eq_ok_iff.1 h
    obtain ⟨⟨⟩, hrest, h⟩ := bind_eq_ok_iff.1 h
    obtain ⟨t, ht, h⟩ := bind_eq_ok_iff.1 h
    refine ⟨key, amount, n, t, ?_, parseAmount_eq_ok_iff.1 hn, ht, (Except.ok.inj h).symm⟩
    rw [nextBulk_eq_ok_iff.1 hkey, nextBulk_eq_ok_iff.1 hamount, noMore_eq_ok_iff.1 hrest]
  · rintro ⟨key, amount, n, t, rfl, hn, ht, rfl⟩
    refine ⟨_, rfl, bind_eq_ok_iff.2 ⟨_, rfl, bind_eq_ok_iff.2 ⟨n, ?_, ?_⟩⟩⟩
    · exact parseAmount_eq_ok_iff.2 hn
    · exact bind_eq_ok_iff.2 ⟨(), rfl, bind_eq_ok_iff.2 ⟨t, ht, rfl⟩⟩

theorem SetOption.deadline_ok (now : Milliseconds) (amount : UInt64) (option : SetOption) :
    option.deadline (.ok now) amount = .ok (option.absolute now amount) := by
  cases option <;> rfl

theorem parseSet_eq_ok_iff {now : Milliseconds} {iter : List Frame} {command : Command} :
    parseSet (.ok now) iter = .ok command ↔
      (∃ key value, iter = [.bulkString key, .bulkString value] ∧ command = .set key value none) ∨
      ∃ (key value o amount : Blob) (option : SetOption) (n : UInt64),
        iter = [.bulkString key, .bulkString value, .bulkString o, .bulkString amount] ∧
          option.Names o ∧ IsNumeral amount.bytes n.toNat ∧
          command = .set key value (some (option.absolute now n)) := by
  constructor
  · intro h
    obtain ⟨⟨key, rest⟩, hkey, h₁⟩ := bind_eq_ok_iff.1 h
    obtain ⟨⟨value, rest⟩, hvalue, h₂⟩ := bind_eq_ok_iff.1 h₁
    rw [nextBulk_eq_ok_iff.1 hkey, nextBulk_eq_ok_iff.1 hvalue]
    rcases rest with _ | ⟨_ | o, rest⟩
    · exact .inl ⟨key, value, rfl, (Except.ok.inj h₂).symm⟩
    · cases h₂
    · simp only at h₂
      cases hoption : SetOption.ofBytes (toAsciiLowercase o.bytes) with
      | none => rw [hoption] at h₂; cases h₂
      | some option =>
          rw [hoption] at h₂
          obtain ⟨⟨amount, rest⟩, hamount, h₃⟩ := bind_eq_ok_iff.1 h₂
          obtain ⟨n, hn, h₄⟩ := bind_eq_ok_iff.1 h₃
          obtain ⟨t, ht, h₅⟩ := bind_eq_ok_iff.1 h₄
          obtain ⟨hrest, hcommand⟩ := noMore_bind_eq_ok_iff.1 h₅
          rw [SetOption.deadline_ok] at ht
          cases ht
          rw [nextBulk_eq_ok_iff.1 hamount, show rest = [] from hrest]
          exact .inr ⟨key, value, o, amount, option, n, rfl, SetOption.names_iff.2 hoption,
            parseAmount_eq_ok_iff.1 hn, hcommand⟩
  · rintro (⟨key, value, rfl, rfl⟩ | ⟨key, value, o, amount, option, n, rfl, ho, hn, rfl⟩)
    · rfl
    · refine bind_eq_ok_iff.2 ⟨_, rfl, bind_eq_ok_iff.2 ⟨_, rfl, ?_⟩⟩
      simp only [SetOption.names_iff.1 ho]
      refine bind_eq_ok_iff.2 ⟨_, rfl, bind_eq_ok_iff.2 ⟨n, parseAmount_eq_ok_iff.2 hn, ?_⟩⟩
      exact bind_eq_ok_iff.2 ⟨_, option.deadline_ok now n, rfl⟩

theorem parsePing_eq_ok_iff {iter : List Frame} {command : Command} :
    parsePing iter = .ok command ↔ (iter = [] ∧ command = .ping none) ∨
      ∃ message, iter = [.bulkString message] ∧ command = .ping (some message) := by
  rcases iter with _ | ⟨_ | message, rest⟩
  · simp [parsePing, eq_comm]
  · simp [parsePing]
  · rw [parsePing, noMore_bind_eq_ok_iff]
    simp

/-- A list of frames is read as channels exactly when all of them are bulk strings. -/
theorem bulkStrings_eq_ok_iff {iter : List Frame} {channelIds : List Blob} :
    bulkStrings iter = .ok channelIds ↔ iter = channelIds.map .bulkString := by
  induction iter generalizing channelIds with
  | nil => simp [bulkStrings, eq_comm]
  | cons f iter ih =>
      cases f with
      | array frames => cases channelIds <;> simp [bulkStrings]
      | bulkString channelId =>
          rw [bulkStrings, bind_eq_ok_iff]
          constructor
          · rintro ⟨ids, hids, h⟩
            rw [ih.1 hids, ← Except.ok.inj h, List.map_cons]
          · intro h
            cases channelIds with
            | nil => cases h
            | cons c cs =>
                rw [List.map_cons, List.cons.injEq] at h
                obtain ⟨⟨⟩, hrest⟩ := h
                exact ⟨cs, ih.2 hrest, rfl⟩

theorem parseSubscribe_eq_ok_iff {iter : List Frame} {command : Command} :
    parseSubscribe iter = .ok command ↔ ∃ channelIds, iter = channelIds.map .bulkString ∧
      channelIds ≠ [] ∧ command = .channel (.subscribe channelIds) := by
  rw [parseSubscribe, bind_eq_ok_iff]
  refine exists_congr fun channelIds ↦ and_congr bulkStrings_eq_ok_iff ?_
  cases channelIds with
  | nil => simp
  | cons c cs =>
      refine ⟨fun h ↦ ⟨List.cons_ne_nil c cs, (Except.ok.inj h).symm⟩, ?_⟩
      rintro ⟨-, rfl⟩
      rfl

theorem parseUnsubscribe_eq_ok_iff {iter : List Frame} {command : Command} :
    parseUnsubscribe iter = .ok command ↔ ∃ channelIds, iter = channelIds.map .bulkString ∧
      command = .channel (.unsubscribe channelIds) := by
  rw [parseUnsubscribe, bind_eq_ok_iff]
  refine exists_congr fun channelIds ↦ and_congr bulkStrings_eq_ok_iff ?_
  exact ⟨fun h ↦ (Except.ok.inj h).symm, fun h ↦ congrArg Except.ok h.symm⟩

theorem parsePublish_eq_ok_iff {iter : List Frame} {command : Command} :
    parsePublish iter = .ok command ↔ ∃ channelId message,
      iter = [.bulkString channelId, .bulkString message] ∧
        command = .channel (.publish channelId message) := by
  constructor
  · intro h
    unfold parsePublish at h
    split at h
    · next channelId message iter =>
        obtain ⟨rfl, rfl⟩ := noMore_bind_eq_ok_iff.1 h
        exact ⟨channelId, message, rfl, rfl⟩
    · cases h
    · cases h
  · rintro ⟨channelId, message, rfl, rfl⟩
    rfl

/-! ## The language -/

/-- The keys and amounts of an accepted `EXPIRE`, and of its siblings, are those of the request. -/
theorem keyAmount_absolute {now : Milliseconds} {option : SetOption}
    {deadline : UInt64 → Except CommandFromFrameError Milliseconds}
    (hdeadline : ∀ n, deadline n = .ok (option.absolute now n)) {iter : List Frame}
    {command : Command} :
    keyAmount deadline iter = .ok command ↔ ∃ (key amount : Blob) (n : UInt64),
      iter = [.bulkString key, .bulkString amount] ∧ IsNumeral amount.bytes n.toNat ∧
        command = .expireAt key (option.absolute now n) := by
  rw [keyAmount_eq_ok_iff]
  constructor
  · rintro ⟨key, amount, n, t, hiter, hn, ht, hcommand⟩
    rw [hdeadline] at ht
    cases ht
    exact ⟨key, amount, n, hiter, hn, hcommand⟩
  · rintro ⟨key, amount, n, hiter, hn, hcommand⟩
    exact ⟨key, amount, n, _, hiter, hn, hdeadline n, hcommand⟩

/-- What is accepted has a form, and means what its form says. -/
theorem form_of_tryFrom {now : Milliseconds} {frame : Frame} {command : Command}
    (h : tryFrom (.ok now) frame = .ok command) :
    ∃ words request, frame = .ofWords words ∧ Form words request ∧
      command = request.command now := by
  rcases frame with (_ | ⟨_ | w, iter⟩) | _
  · cases h
  · cases h
  · rw [tryFrom] at h
    cases hv : Verb.ofBytes (toAsciiLowercase w.bytes) with
    | none => rw [hv] at h; cases h
    | some verb =>
        rw [hv] at h
        have hw : verb.Names w := Verb.names_iff.2 hv
        cases verb with
        | get =>
            obtain ⟨key, rfl, rfl⟩ := oneKey_eq_ok_iff.1 h
            exact ⟨[w, key], _, rfl, .get key hw, rfl⟩
        | set =>
            rcases parseSet_eq_ok_iff.1 h with ⟨key, value, rfl, rfl⟩ |
              ⟨key, value, o, amount, option, n, rfl, ho, hn, rfl⟩
            · exact ⟨[w, key, value], _, rfl, .set key value hw, rfl⟩
            · exact ⟨[w, key, value, o, amount], _, rfl, .setOption key value hw ho hn, rfl⟩
        | del =>
            obtain ⟨key, rfl, rfl⟩ := oneKey_eq_ok_iff.1 h
            exact ⟨[w, key], _, rfl, .del key hw, rfl⟩
        | ping =>
            rcases parsePing_eq_ok_iff.1 h with ⟨rfl, rfl⟩ | ⟨message, rfl, rfl⟩
            · exact ⟨[w], _, rfl, .ping hw, rfl⟩
            · exact ⟨[w, message], _, rfl, .pingMessage message hw, rfl⟩
        | «exists» =>
            obtain ⟨key, rfl, rfl⟩ := oneKey_eq_ok_iff.1 h
            exact ⟨[w, key], _, rfl, .exists key hw, rfl⟩
        | expire =>
            obtain ⟨key, amount, n, rfl, hn, rfl⟩ :=
              (keyAmount_absolute (SetOption.ex.deadline_ok now)).1 h
            exact ⟨[w, key, amount], _, rfl, .expire key hw hn, rfl⟩
        | expireat =>
            obtain ⟨key, amount, n, rfl, hn, rfl⟩ :=
              (keyAmount_absolute (SetOption.exat.deadline_ok now)).1 h
            exact ⟨[w, key, amount], _, rfl, .expireat key hw hn, rfl⟩
        | pexpireat =>
            obtain ⟨key, amount, n, rfl, hn, rfl⟩ :=
              (keyAmount_absolute (SetOption.pxat.deadline_ok now)).1 h
            exact ⟨[w, key, amount], _, rfl, .pexpireat key hw hn, rfl⟩
        | ttl =>
            obtain ⟨key, rfl, rfl⟩ := oneKey_eq_ok_iff.1 h
            exact ⟨[w, key], _, rfl, .ttl key hw, rfl⟩
        | persist =>
            obtain ⟨key, rfl, rfl⟩ := oneKey_eq_ok_iff.1 h
            exact ⟨[w, key], _, rfl, .persist key hw, rfl⟩
        | subscribe =>
            obtain ⟨channelIds, rfl, hne, rfl⟩ := parseSubscribe_eq_ok_iff.1 h
            exact ⟨w :: channelIds, _, rfl, .subscribe hw hne, rfl⟩
        | unsubscribe =>
            obtain ⟨channelIds, rfl, rfl⟩ := parseUnsubscribe_eq_ok_iff.1 h
            exact ⟨w :: channelIds, _, rfl, .unsubscribe channelIds hw, rfl⟩
        | publish =>
            obtain ⟨channelId, message, rfl, rfl⟩ := parsePublish_eq_ok_iff.1 h
            exact ⟨[w, channelId, message], _, rfl, .publish channelId message hw, rfl⟩
  · cases h

/-- The verb picks the arm. -/
theorem tryFrom_of_names {now : Reading} {verb : Verb} {w : Blob} (h : verb.Names w)
    (iter : List Frame) :
    tryFrom now (.array (.bulkString w :: iter)) = match verb with
      | .get => oneKey get iter
      | .set => parseSet now iter
      | .del => oneKey delete iter
      | .ping => parsePing iter
      | .exists => oneKey «exists» iter
      | .expire => keyAmount (SetOption.ex.deadline now ·) iter
      | .expireat => keyAmount (SetOption.exat.deadline now ·) iter
      | .pexpireat => keyAmount (SetOption.pxat.deadline now ·) iter
      | .ttl => oneKey ttl iter
      | .persist => oneKey persist iter
      | .subscribe => parseSubscribe iter
      | .unsubscribe => parseUnsubscribe iter
      | .publish => parsePublish iter := by
  rw [tryFrom, Verb.names_iff.1 h]
  cases verb <;> rfl

/-- What has a form is accepted, and means what its form says. -/
theorem tryFrom_of_form {words : List Blob} {request : Request} (h : Form words request)
    (now : Milliseconds) : tryFrom (.ok now) (.ofWords words) = .ok (request.command now) := by
  cases h with
  | ping hw => exact tryFrom_of_names hw _
  | pingMessage message hw => exact tryFrom_of_names hw _
  | get key hw => exact tryFrom_of_names hw _
  | del key hw => exact tryFrom_of_names hw _
  | «exists» key hw => exact tryFrom_of_names hw _
  | ttl key hw => exact tryFrom_of_names hw _
  | persist key hw => exact tryFrom_of_names hw _
  | set key value hw => exact tryFrom_of_names hw _
  | setOption key value hw ho hn =>
      exact (tryFrom_of_names hw _).trans
        (parseSet_eq_ok_iff.2 (.inr ⟨key, value, _, _, _, _, rfl, ho, hn, rfl⟩))
  | expire key hw hn =>
      exact (tryFrom_of_names hw _).trans
        ((keyAmount_absolute (SetOption.ex.deadline_ok now)).2 ⟨key, _, _, rfl, hn, rfl⟩)
  | expireat key hw hn =>
      exact (tryFrom_of_names hw _).trans
        ((keyAmount_absolute (SetOption.exat.deadline_ok now)).2 ⟨key, _, _, rfl, hn, rfl⟩)
  | pexpireat key hw hn =>
      exact (tryFrom_of_names hw _).trans
        ((keyAmount_absolute (SetOption.pxat.deadline_ok now)).2 ⟨key, _, _, rfl, hn, rfl⟩)
  | subscribe hw hne =>
      exact (tryFrom_of_names hw _).trans (parseSubscribe_eq_ok_iff.2 ⟨_, rfl, hne, rfl⟩)
  | unsubscribe channelIds hw =>
      exact (tryFrom_of_names hw _).trans (parseUnsubscribe_eq_ok_iff.2 ⟨_, rfl, rfl⟩)
  | publish channelId message hw => exact tryFrom_of_names hw _

/-- The parser accepts exactly the requests, at every reading of the clock: a frame lifts into a
command exactly when it spells a request out, and the command is what the request means. -/
theorem tryFrom_eq_ok_iff (now : Milliseconds) (frame : Frame) :
    ((∃ command, tryFrom (.ok now) frame = .ok command) ↔
      ∃ words request, frame = .ofWords words ∧ Form words request) ∧
    ∀ command, tryFrom (.ok now) frame = .ok command ↔
      ∃ words request, frame = .ofWords words ∧ Form words request ∧
        command = request.command now := by
  have hiff (command : Command) : tryFrom (.ok now) frame = .ok command ↔
      ∃ words request, frame = .ofWords words ∧ Form words request ∧
        command = request.command now := by
    refine ⟨form_of_tryFrom, ?_⟩
    rintro ⟨words, request, rfl, hform, rfl⟩
    exact tryFrom_of_form hform now
  refine ⟨⟨?_, ?_⟩, hiff⟩
  · rintro ⟨command, h⟩
    obtain ⟨words, request, hframe, hform, -⟩ := form_of_tryFrom h
    exact ⟨words, request, hframe, hform⟩
  · rintro ⟨words, request, rfl, hform⟩
    exact ⟨_, tryFrom_of_form hform now⟩

end Command

/-! ## One request after another -/

open Incremental

/-- Bytes that spell requests out, in any of the forms a request has, and in any of the encodings
a form has. -/
inductive Spells : List Request → Bytes → Prop
  | nil : Spells [] []
  | cons {words : List Blob} {request : Request} {requests : List Request} {e bytes : Bytes} :
      Form words request → Frame.IsEncoding (.ofWords words) e → Spells requests bytes →
        Spells (request :: requests) (e ++ bytes)

/-- What follows requests is parsed after them. -/
theorem Spells.drain {requests : List Request} {bytes : Bytes} (h : Spells requests bytes)
    {tail : Bytes} (htail : Frame.parseOne tail = .error .incomplete) :
    ∃ frames, drain .incomplete Frame.parseOne (bytes ++ tail) = ⟨frames, none, tail⟩ ∧
      List.Forall₂ (fun frame request ↦ ∃ words, frame = .ofWords words ∧ Form words request)
        frames requests := by
  induction h with
  | nil => exact ⟨[], drain_of_short htail, .nil⟩
  | cons hform he _ ih =>
      obtain ⟨frames, hdrain, hforms⟩ := ih
      refine ⟨_, ?_, .cons ⟨_, rfl, hform⟩ hforms⟩
      rw [List.append_assoc, drain_of_ok Frame.stable_parseOne (he.encodes _), hdrain]
      rfl

end Steller
