import Smux.Error

namespace Smux

inductive Command
  | syn
  | fin
  | psh
  | nop
  | upd (consumed window : UInt32)
  deriving DecidableEq, Repr

namespace Command

def SYN : UInt8 := 0
def FIN : UInt8 := 1
def PSH : UInt8 := 2
def NOP : UInt8 := 3
def UPD : UInt8 := 4

def fromByte (byte : UInt8) : Result Command :=
  if byte = SYN then .ok .syn
  else if byte = FIN then .ok .fin
  else if byte = PSH then .ok .psh
  else if byte = NOP then .ok .nop
  else if byte = UPD then .ok (.upd 0 0)
  else .error .invalidFrame

def toByte : Command → UInt8
  | .syn => SYN
  | .fin => FIN
  | .psh => PSH
  | .nop => NOP
  | .upd _ _ => UPD

def isControl : Command → Bool
  | .syn | .fin | .nop | .upd _ _ => true
  | .psh => false

def requiresV2 : Command → Bool
  | .upd _ _ => true
  | _ => false

/-- What the command byte alone tells: not the payload of a window update. -/
def headerOnly : Command → Command
  | .upd _ _ => .upd 0 0
  | cmd => cmd

theorem fromByte_toByte (cmd : Command) : fromByte cmd.toByte = .ok cmd.headerOnly := by
  cases cmd <;> rfl

end Command

end Smux
