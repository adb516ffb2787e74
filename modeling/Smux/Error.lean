import Mathlib.Control.Monad.Basic

/-!
# Errors

`SmuxError` is the library's own error type, with the variants that the core
makes. `IoError` stands for the `std::io::Error` that the stream's poll
functions return: its kind and its text, the two parts the crate sets.
-/

namespace Smux

inductive ErrorKind
  | brokenPipe
  deriving DecidableEq, Repr

structure IoError where
  kind : ErrorKind
  message : String
  deriving DecidableEq, Repr

inductive SmuxError
  | invalidProtocol (version : UInt8)
  | frameTooLarge (size max : Nat)
  | sessionClosed
  | streamAlreadyExists (streamId : UInt32)
  | invalidStreamId (streamId : UInt32)
  | config (message : String)
  | invalidFrame
  | protocolViolation (message : String)
  | insufficientData
  deriving DecidableEq, Repr

abbrev Result := Except SmuxError

end Smux
