import Blinky.Lib.Interleave

/-!
# The GIO driver (`hal/HL_gio.c`) and the registers it drives

`HL_reg_gio.h` lays out one control frame (`gioREG`) and two port frames
(`gioPORTA`, `gioPORTB`). The set and clear registers are windows on one latch
each: `DSET`/`DCLR` on the port's output latch, `ENASET`/`ENACLR` and
`LVLSET`/`LVLCLR` on the interrupt latches, and `FLG` clears the flags written
as one. `DIN` reads the pins: an output pin that is driven reads its latch bit,
any other pin the level outside.

The driver functions are programs over these registers, access for access as in
the C source.
-/

namespace Blinky.Hal
set_option autoImplicit false
open Interleave

/-- `gioBASE_t`, without the offset and emulation registers no function here uses. -/
inductive BaseReg where
  | GCR0 | INTDET | POL | ENASET | ENACLR | LVLSET | LVLCLR | FLG
deriving DecidableEq, Repr

/-- `gioPORT_t`. -/
inductive PortReg where
  | DIR | DIN | DOUT | DSET | DCLR | PDR | PULDIS | PSL
deriving DecidableEq, Repr

inductive GioPort where
  | gioPORTA | gioPORTB
deriving DecidableEq, Repr

inductive GioReg where
  | gioREG (r : BaseReg)
  | port (p : GioPort) (r : PortReg)
deriving DecidableEq, Repr

/-- The control frame behind `gioREG`. -/
structure GioBase where
  GCR0 : BitVec 32
  INTDET : BitVec 32
  POL : BitVec 32
  ENA : BitVec 32
  LVL : BitVec 32
  FLG : BitVec 32
deriving DecidableEq, Repr

/-- One port: its registers and the levels the outside puts on its eight pins. -/
structure PortState where
  DIR : BitVec 32
  DOUT : BitVec 32
  PDR : BitVec 32
  PULDIS : BitVec 32
  PSL : BitVec 32
  pins : BitVec 8
deriving DecidableEq, Repr

/-- The pins the port drives: outputs, except open-drain ones whose latch is high. -/
def PortState.driven (s : PortState) : BitVec 32 := s.DIR &&& ~~~(s.PDR &&& s.DOUT)

/-- The word `DIN` answers. -/
def PortState.din (s : PortState) : BitVec 32 :=
  (s.DOUT &&& s.driven) ||| (s.pins.zeroExtend 32 &&& ~~~s.driven)

def PortState.read (s : PortState) : PortReg → BitVec 32
  | .DIR => s.DIR
  | .DIN => s.din
  | .DOUT | .DSET | .DCLR => s.DOUT
  | .PDR => s.PDR
  | .PULDIS => s.PULDIS
  | .PSL => s.PSL

/-- `DIN` is read-only. -/
def PortState.write (s : PortState) (v : BitVec 32) : PortReg → PortState
  | .DIR => { s with DIR := v }
  | .DIN => s
  | .DOUT => { s with DOUT := v }
  | .DSET => { s with DOUT := s.DOUT ||| v }
  | .DCLR => { s with DOUT := s.DOUT &&& ~~~v }
  | .PDR => { s with PDR := v }
  | .PULDIS => { s with PULDIS := v }
  | .PSL => { s with PSL := v }

def GioBase.read (s : GioBase) : BaseReg → BitVec 32
  | .GCR0 => s.GCR0
  | .INTDET => s.INTDET
  | .POL => s.POL
  | .ENASET | .ENACLR => s.ENA
  | .LVLSET | .LVLCLR => s.LVL
  | .FLG => s.FLG

def GioBase.write (s : GioBase) (v : BitVec 32) : BaseReg → GioBase
  | .GCR0 => { s with GCR0 := v }
  | .INTDET => { s with INTDET := v }
  | .POL => { s with POL := v }
  | .ENASET => { s with ENA := s.ENA ||| v }
  | .ENACLR => { s with ENA := s.ENA &&& ~~~v }
  | .LVLSET => { s with LVL := s.LVL ||| v }
  | .LVLCLR => { s with LVL := s.LVL &&& ~~~v }
  | .FLG => { s with FLG := s.FLG &&& ~~~v }

/-- The GIO module. -/
structure Gio where
  base : GioBase
  portA : PortState
  portB : PortState
deriving DecidableEq, Repr

def Gio.port (s : Gio) : GioPort → PortState
  | .gioPORTA => s.portA
  | .gioPORTB => s.portB

def Gio.setPort (s : Gio) (x : PortState) : GioPort → Gio
  | .gioPORTA => { s with portA := x }
  | .gioPORTB => { s with portB := x }

/-- Levels the outside may put on the pins of the two ports. -/
structure Levels where
  portA : BitVec 8
  portB : BitVec 8

def Gio.setLevels (s : Gio) (l : Levels) : Gio :=
  { s with
    portA := { s.portA with pins := l.portA }
    portB := { s.portB with pins := l.portB } }

/-- The module on the bus. -/
def gioDevice : Device Gio GioReg (BitVec 32) where
  read s
    | .gioREG r => s.base.read r
    | .port p r => (s.port p).read r
  write s r v :=
    match r with
    | .gioREG r => { s with base := s.base.write v r }
    | .port p r => s.setPort ((s.port p).write v r) p

abbrev Driver (α : Type) := Prog GioReg (BitVec 32) α

/-- The bits of a word, least significant first, as `HL_gio.c` spells its constants. -/
def bits (bs : List (BitVec 32)) : BitVec 32 :=
  bs.zipIdx.foldl (fun w b => w ||| b.1 <<< b.2) 0#32

/-- The initial values `gioInit` gives a port; only the direction differs between the two. -/
def portInit (p : GioPort) (dir : BitVec 32) : Driver Unit := do
  .writeReg (.port p .DOUT) (bits [0, 0, 0, 0, 0, 0, 0, 0])
  .writeReg (.port p .DIR) dir
  .writeReg (.port p .PDR) (bits [0, 0, 0, 0, 0, 0, 0, 0])
  .writeReg (.port p .PSL) (bits [0, 0, 0, 0, 0, 0, 0, 0])
  .writeReg (.port p .PULDIS) (bits [0, 0, 0, 0, 0, 0, 0, 0])

def gioInit : Driver Unit := do
  .writeReg (.gioREG .GCR0) 1#32
  .writeReg (.gioREG .ENACLR) 0xFF#32
  .writeReg (.gioREG .LVLCLR) 0xFF#32
  portInit .gioPORTA (bits [0, 0, 0, 0, 0, 0, 0, 0])
  portInit .gioPORTB (bits [0, 0, 0, 0, 0, 0, 1, 1])
  .writeReg (.gioREG .POL) (bits [0, 0, 0, 0, 0, 0, 0, 0, 0, 0, 0, 0, 0, 0, 0, 0])
  .writeReg (.gioREG .LVLSET) (bits [0, 0, 0, 0, 0, 0, 0, 0, 0, 0, 0, 0, 0, 0, 0, 0])
  .writeReg (.gioREG .FLG) 0xFF#32
  .writeReg (.gioREG .ENASET) (bits [0, 0, 0, 0, 0, 0, 0, 0, 0, 0, 0, 0, 0, 0, 0, 0])

def gioSetDirection (port : GioPort) (dir : BitVec 32) : Driver Unit :=
  .writeReg (.port port .DIR) dir

def gioSetBit (port : GioPort) (bit value : BitVec 32) : Driver Unit :=
  if value ≠ 0#32 then
    .writeReg (.port port .DSET) (1#32 <<< bit)
  else
    .writeReg (.port port .DCLR) (1#32 <<< bit)

def gioSetPort (port : GioPort) (value : BitVec 32) : Driver Unit :=
  .writeReg (.port port .DOUT) value

def gioGetBit (port : GioPort) (bit : BitVec 32) : Driver (BitVec 32) := do
  let din ← .readReg (.port port .DIN)
  return (din >>> bit) &&& 1#32

def gioGetPort (port : GioPort) : Driver (BitVec 32) := .readReg (.port port .DIN)

def gioToggleBit (port : GioPort) (bit : BitVec 32) : Driver Unit := do
  let din ← .readReg (.port port .DIN)
  if din &&& (1#32 <<< bit) ≠ 0#32 then
    .writeReg (.port port .DCLR) (1#32 <<< bit)
  else
    .writeReg (.port port .DSET) (1#32 <<< bit)

/-- The interrupt bit of a pin: port B's follow port A's eight. -/
def notificationBit (port : GioPort) (bit : BitVec 32) : BitVec 32 :=
  match port with
  | .gioPORTA => 1#32 <<< bit
  | .gioPORTB => 1#32 <<< (bit + 8#32)

def gioEnableNotification (port : GioPort) (bit : BitVec 32) : Driver Unit :=
  .writeReg (.gioREG .ENASET) (notificationBit port bit)

def gioDisableNotification (port : GioPort) (bit : BitVec 32) : Driver Unit :=
  .writeReg (.gioREG .ENACLR) (notificationBit port bit)

end Blinky.Hal
