/-!
# Input errors

What can go wrong while characters are taken from an input: a fault of the device that delivers
it, or bytes that are not UTF-8. Each cause has a kind and a message.

* `FeedError.kind_eq_invalidData`: bytes that are not UTF-8 are invalid data, whatever is wrong.
-/

namespace LispLexer

/-- The kinds of input and output errors. An interruption is waited out and bytes that are not UTF-8
    are invalid data; all other kinds are passed on as they are. -/
inductive ErrorKind where
  | addrInUse | addrNotAvailable | alreadyExists | argumentListTooLong | brokenPipe
  | connectionAborted | connectionRefused | connectionReset | crossesDevices | deadlock
  | directoryNotEmpty | executableFileBusy | fileTooLarge | filesystemLoop | hostUnreachable
  | inProgress | interrupted | invalidData | invalidFilename | invalidInput | isADirectory
  | networkDown | networkUnreachable | notADirectory | notConnected | notFound | notSeekable
  | other | outOfMemory | permissionDenied | quotaExceeded | readOnlyFilesystem | resourceBusy
  | staleNetworkFileHandle | storageFull | timedOut | tooManyLinks | uncategorized
  | unexpectedEof | unsupported | wouldBlock | writeZero
  deriving DecidableEq

/-- An error as a device reports it. -/
structure Fault where
  kind : ErrorKind
  message : String
  deriving DecidableEq

/-- Why an input has no next character although it has not come to its end. -/
inductive FeedError where
  /-- The device reports a fault. -/
  | fault (f : Fault)
  /-- The byte begins no UTF-8 sequence. -/
  | badLead (lead : UInt8)
  /-- The input ends before the sequence has as many bytes as its lead byte announces. -/
  | cutOff
  /-- The sequence has the announced length, and only its first `agreeing` bytes are in place. -/
  | badSequence (agreeing : Nat)
  deriving DecidableEq

namespace FeedError

/-- The kind of an input error. -/
def kind : FeedError → ErrorKind
  | fault f => f.kind
  | _ => .invalidData

theorem kind_eq_invalidData {e : FeedError} (h : ∀ f, e ≠ fault f) : e.kind = .invalidData := by
  cases e with
  | fault f => exact absurd rfl (h f)
  | badLead => rfl
  | cutOff => rfl
  | badSequence => rfl

/-- A byte as two lower-case hexadecimal digits. -/
def hexByte (b : UInt8) : String :=
  String.ofList [Nat.digitChar (b.toNat / 16), Nat.digitChar (b.toNat % 16)]

/-- The message of an input error. -/
def message : FeedError → String
  | fault f => f.message
  | badLead lead => "invalid UTF-8 lead byte 0x" ++ hexByte lead
  | cutOff => "input ends inside a UTF-8 sequence"
  | badSequence n => s!"invalid UTF-8 sequence: invalid utf-8 sequence of {n} bytes from index 0"

end FeedError

end LispLexer
