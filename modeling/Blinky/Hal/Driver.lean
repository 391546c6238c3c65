import Blinky.Hal.Gio

/-!
# What the driver functions do

A driver function run alone changes one latch and nothing else, an interrupt
enable of one pin no other pin's. Reading a pin and writing it back inverted is,
access for access, `gioToggleBit`. After
`gioInit` the configuration read back is the initial one exactly if the bits
`gioInit` does not write were clear: it clears the interrupt enables and levels
of port A only, and never writes `INTDET`.
-/

namespace Blinky.Hal
set_option autoImplicit false
open Interleave

/-! ## Pins -/

/-- The value `gioGetBit` returns. -/
theorem getBit_value (w bit : BitVec 32) :
    (w >>> bit) &&& 1#32 = if w.getLsbD bit.toNat then 1#32 else 0#32 := by
  apply BitVec.eq_of_getLsbD_eq
  intro i hi
  by_cases h : i = 0
  · subst h
    cases hb : w.getLsbD bit.toNat <;> simp [hb]
  · cases hb : w.getLsbD bit.toNat <;> simp [h]

/-- The test `gioToggleBit` makes on the port's word. -/
theorem and_mask_eq_zero_iff (w bit : BitVec 32) :
    w &&& (1#32 <<< bit) = 0#32 ↔ w.getLsbD bit.toNat = false := by
  rw [BitVec.shiftLeft_eq']
  constructor
  · intro zero
    by_cases range : bit.toNat < 32
    · have own := congrArg (fun x : BitVec 32 => x.getLsbD bit.toNat) zero
      simpa [range] using own
    · exact BitVec.getLsbD_of_ge w _ (by omega)
  · intro clear
    apply BitVec.eq_of_getLsbD_eq
    intro i hi
    by_cases h : i = bit.toNat
    · subst h
      simp [clear]
    · have off : (1#32 <<< bit.toNat).getLsbD i = false := by
        simp only [BitVec.getLsbD_shiftLeft, BitVec.getLsbD_one]
        simp
        omega
      rw [BitVec.getLsbD_and, off, Bool.and_false, BitVec.getLsbD_zero]

/-- **Reading a pin and writing it inverted is `gioToggleBit`**, access for access. -/
theorem gioToggleBit_eq (port : GioPort) (bit : BitVec 32) : gioToggleBit port bit =
    Prog.bind (gioGetBit port bit) fun value => gioSetBit port bit (value ^^^ 1#32) := by
  have choice : ∀ din : BitVec 32, gioSetBit port bit (((din >>> bit) &&& 1#32) ^^^ 1#32) =
      if din &&& (1#32 <<< bit) ≠ 0#32 then .writeReg (.port port .DCLR) (1#32 <<< bit)
      else .writeReg (.port port .DSET) (1#32 <<< bit) := by
    intro din
    rw [getBit_value, gioSetBit]
    cases level : din.getLsbD bit.toNat with
    | false =>
      have clear : din &&& (1#32 <<< bit) = 0#32 := (and_mask_eq_zero_iff din bit).mpr level
      rw [if_neg (not_not.mpr clear)]
      rfl
    | true =>
      have set : din &&& (1#32 <<< bit) ≠ 0#32 := fun clear => by
        rw [(and_mask_eq_zero_iff din bit).mp clear] at level
        cases level
      rw [if_pos set]
      rfl
  show Prog.read (GioReg.port port .DIN) _ = Prog.read (GioReg.port port .DIN) _
  congr 1
  funext din
  exact (choice din).symm

/-- `gioSetBit` alone sets or clears latch bits of its port and leaves the rest of the module. -/
theorem gioSetBit_run (port : GioPort) (bit value : BitVec 32) (s : Gio) :
    (gioSetBit port bit value).run gioDevice s = ((), s.setPort { s.port port with
      DOUT := if value ≠ 0#32 then (s.port port).DOUT ||| (1#32 <<< bit)
        else (s.port port).DOUT &&& ~~~(1#32 <<< bit) } port) := by
  unfold gioSetBit
  split <;> rfl

/-- **A push-pull port reads back what was written on its outputs** and the outside
levels on its inputs. -/
theorem gioGetPort_after_gioSetPort (port : GioPort) (dir value : BitVec 32) {s : Gio}
    (pushPull : (s.port port).PDR = 0#32) :
    (Prog.run gioDevice (do
      gioSetDirection port dir
      gioSetPort port value
      gioGetPort port) s).1 =
      (value &&& dir) ||| ((s.port port).pins.zeroExtend 32 &&& ~~~dir) := by
  have drives : ({ s.port port with DIR := dir, DOUT := value } : PortState).driven = dir := by
    simp only [PortState.driven, pushPull, BitVec.zero_and]
    exact BitVec.and_allOnes
  have answer : ({ s.port port with DIR := dir, DOUT := value } : PortState).din =
      (value &&& dir) ||| ((s.port port).pins.zeroExtend 32 &&& ~~~dir) := by
    rw [PortState.din, drives]
  rw [← answer]
  cases port <;> rfl

/-! ## Interrupts -/

/-- The place of a pin's interrupt bit. -/
def notificationPlace : GioPort → Nat → Nat
  | .gioPORTA, n => n
  | .gioPORTB, n => n + 8

theorem notificationBit_eq (port : GioPort) {n : Nat} (pin : n < 8) :
    notificationBit port (BitVec.ofNat 32 n) = BitVec.twoPow 32 (notificationPlace port n) := by
  have small : n % 2 ^ 32 = n := Nat.mod_eq_of_lt (by omega)
  cases port with
  | gioPORTA =>
    rw [notificationBit, BitVec.shiftLeft_eq', BitVec.toNat_ofNat, small]
    exact (BitVec.twoPow_eq 32 n).symm
  | gioPORTB =>
    have sum : (BitVec.ofNat 32 n + 8#32).toNat = n + 8 := by
      simp [BitVec.toNat_add]
      omega
    rw [notificationBit, BitVec.shiftLeft_eq', sum]
    exact (BitVec.twoPow_eq 32 (n + 8)).symm

theorem notificationPlace_inj {p q : GioPort} {m n : Nat} (hm : m < 8) (hn : n < 8) :
    notificationPlace p m = notificationPlace q n ↔ p = q ∧ m = n := by
  cases p <;> cases q <;> simp [notificationPlace] <;> omega

/-- **Every pin of the two ports has an interrupt bit of its own.** -/
theorem notificationBit_getLsbD (p q : GioPort) {m n : Nat} (hm : m < 8) (hn : n < 8) :
    (notificationBit p (BitVec.ofNat 32 m)).getLsbD (notificationPlace q n) =
      decide (p = q ∧ m = n) := by
  have range : notificationPlace p m < 32 := by
    cases p <;> simp only [notificationPlace] <;> omega
  rw [notificationBit_eq p hm, BitVec.getLsbD_twoPow, decide_eq_true range, Bool.true_and]
  exact decide_eq_decide.mpr (notificationPlace_inj hm hn)

/-- Enabling a pin's interrupt enables no other pin's. -/
theorem gioEnableNotification_ENA (p q : GioPort) {m n : Nat} (hm : m < 8) (hn : n < 8) (s : Gio) :
    ((gioEnableNotification p (BitVec.ofNat 32 m)).run gioDevice s).2.base.ENA.getLsbD
        (notificationPlace q n) =
      (s.base.ENA.getLsbD (notificationPlace q n) || decide (p = q ∧ m = n)) := by
  rw [← notificationBit_getLsbD p q hm hn]
  exact BitVec.getLsbD_or

/-- Disabling a pin's interrupt disables no other pin's. -/
theorem gioDisableNotification_ENA (p q : GioPort) {m n : Nat} (hm : m < 8) (hn : n < 8) (s : Gio) :
    ((gioDisableNotification p (BitVec.ofNat 32 m)).run gioDevice s).2.base.ENA.getLsbD
        (notificationPlace q n) =
      (s.base.ENA.getLsbD (notificationPlace q n) && !decide (p = q ∧ m = n)) := by
  have range : notificationPlace q n < 32 := by
    cases q <;> simp only [notificationPlace] <;> omega
  have written : ((gioDisableNotification p (BitVec.ofNat 32 m)).run gioDevice s).2.base.ENA =
      s.base.ENA &&& ~~~notificationBit p (BitVec.ofNat 32 m) := rfl
  rw [written, BitVec.getLsbD_and, BitVec.getLsbD_not, notificationBit_getLsbD p q hm hn,
    decide_eq_true range, Bool.true_and]

/-! ## The configuration -/

/-- `config_value_type_t`. -/
inductive ConfigValueType where
  | InitialValue | CurrentValue
deriving DecidableEq, Repr

/-- `gio_config_reg_t`. -/
structure GioConfigReg where
  INTDET : BitVec 32
  POL : BitVec 32
  INTENASET : BitVec 32
  LVLSET : BitVec 32
  PORTADIR : BitVec 32
  PORTAPDR : BitVec 32
  PORTAPSL : BitVec 32
  PORTAPULDIS : BitVec 32
  PORTBDIR : BitVec 32
  PORTBPDR : BitVec 32
  PORTBPSL : BitVec 32
  PORTBPULDIS : BitVec 32
deriving DecidableEq, Repr

/-- The `GIO_…_CONFIGVALUE` constants. -/
def initialConfig : GioConfigReg where
  INTDET := 0#32
  POL := bits [0, 0, 0, 0, 0, 0, 0, 0, 0, 0, 0, 0, 0, 0, 0, 0]
  INTENASET := bits [0, 0, 0, 0, 0, 0, 0, 0, 0, 0, 0, 0, 0, 0, 0, 0]
  LVLSET := bits [0, 0, 0, 0, 0, 0, 0, 0, 0, 0, 0, 0, 0, 0, 0, 0]
  PORTADIR := bits [0, 0, 0, 0, 0, 0, 0, 0]
  PORTAPDR := bits [0, 0, 0, 0, 0, 0, 0, 0]
  PORTAPSL := bits [0, 0, 0, 0, 0, 0, 0, 0]
  PORTAPULDIS := bits [0, 0, 0, 0, 0, 0, 0, 0]
  PORTBDIR := bits [0, 0, 0, 0, 0, 0, 1, 1]
  PORTBPDR := bits [0, 0, 0, 0, 0, 0, 0, 0]
  PORTBPSL := bits [0, 0, 0, 0, 0, 0, 0, 0]
  PORTBPULDIS := bits [0, 0, 0, 0, 0, 0, 0, 0]

def gioGetConfigValue : ConfigValueType → Driver GioConfigReg
  | .InitialValue => return initialConfig
  | .CurrentValue => do
    let INTDET ← .readReg (.gioREG .INTDET)
    let POL ← .readReg (.gioREG .POL)
    let INTENASET ← .readReg (.gioREG .ENASET)
    let LVLSET ← .readReg (.gioREG .LVLSET)
    let PORTADIR ← .readReg (.port .gioPORTA .DIR)
    let PORTAPDR ← .readReg (.port .gioPORTA .PDR)
    let PORTAPSL ← .readReg (.port .gioPORTA .PSL)
    let PORTAPULDIS ← .readReg (.port .gioPORTA .PULDIS)
    let PORTBDIR ← .readReg (.port .gioPORTB .DIR)
    let PORTBPDR ← .readReg (.port .gioPORTB .PDR)
    let PORTBPSL ← .readReg (.port .gioPORTB .PSL)
    let PORTBPULDIS ← .readReg (.port .gioPORTB .PULDIS)
    return { INTDET, POL, INTENASET, LVLSET, PORTADIR, PORTAPDR, PORTAPSL, PORTAPULDIS, PORTBDIR,
             PORTBPDR, PORTBPSL, PORTBPULDIS }

/-- Reading the configuration leaves the module alone. -/
theorem gioGetConfigValue_state (type : ConfigValueType) (s : Gio) :
    ((gioGetConfigValue type).run gioDevice s).2 = s := by
  cases type <;> rfl

/-- The control frame after `gioInit`: port A's interrupt bits are clear, the others as found. -/
theorem gioInit_base (hw : Gio) : (gioInit.run gioDevice hw).2.base =
    ⟨1#32, hw.base.INTDET, 0#32, hw.base.ENA &&& ~~~0xFF#32 ||| 0#32,
      hw.base.LVL &&& ~~~0xFF#32 ||| 0#32, hw.base.FLG &&& ~~~0xFF#32⟩ := rfl

/-- **After `gioInit` the current configuration is the initial one exactly if what
`gioInit` does not write was clear.** -/
theorem config_after_gioInit (hw : Gio) :
    ((gioGetConfigValue .CurrentValue).run gioDevice (gioInit.run gioDevice hw).2).1 = initialConfig ↔
      hw.base.INTDET = 0#32 ∧ hw.base.ENA &&& ~~~0xFF#32 = 0#32 ∧ hw.base.LVL &&& ~~~0xFF#32 = 0#32 := by
  have current : ((gioGetConfigValue .CurrentValue).run gioDevice (gioInit.run gioDevice hw).2).1 =
      { initialConfig with
        INTDET := hw.base.INTDET
        INTENASET := hw.base.ENA &&& ~~~0xFF#32 ||| 0#32
        LVLSET := hw.base.LVL &&& ~~~0xFF#32 ||| 0#32 } := rfl
  rw [current, BitVec.or_zero, BitVec.or_zero, GioConfigReg.mk.injEq]
  constructor
  · rintro ⟨intdet, -, ena, lvl, -⟩
    exact ⟨intdet, ena, lvl⟩
  · rintro ⟨intdet, ena, lvl⟩
    exact ⟨intdet, rfl, ena, lvl, rfl, rfl, rfl, rfl, rfl, rfl, rfl, rfl⟩

end Blinky.Hal
