import MuMuDVB.RequestScripts
import MuMuDVB.CString

/-!
# Satellite switches

The part of `tune_it` for satellites, with `do_diseqc` and `do_unicable`: the
requests that are made to the front end, in their order, and the switches and
converters at the other end of the cable that listen to them. The waits between
the requests are left out, and so is what `check_status` reads at the end.
-/
namespace MuMuDVB.SatelliteSwitch

open RequestScripts CString

/-- `fe_sec_voltage_t` -/
inductive Voltage where
  | v13 | v18 | off
  deriving DecidableEq, Repr

/-- `fe_sec_mini_cmd_t` -/
inductive MiniCmd where
  | miniA | miniB
  deriving DecidableEq, Repr

/-- The calls of `ioctl` on the front end that change something. A command of DiSEqC has the bytes
that its length says, and of the properties the frequency is kept. -/
inductive Request where
  | setTone (on : Bool)
  | setVoltage (v : Voltage)
  | diseqcSendMasterCmd (msg : List UInt8)
  | diseqcSendBurst (burst : MiniCmd)
  | setFrontend (frequency : Nat)
  | clearProperties
  | setProperties (frequency : Nat)
  deriving DecidableEq, Repr

/-- `if((err = ioctl(…))) return -1` -/
def mustBeZero (r : Request) : Step Request := ⟨r, fun err => decide (err ≠ 0), fun _ => -1⟩

/-- `if(ioctl(…) < 0) return -1` -/
def mustNotFail (r : Request) : Step Request := ⟨r, fun err => decide (err < 0), fun _ => -1⟩

/-- `diseqc_send_msg` -/
def diseqcSendMsg (v : Voltage) (cmds : List (List UInt8)) (t : Bool) (burst : MiniCmd) :
    Line Request → Int × Line Request :=
  perform (mustBeZero (.setTone false) :: mustBeZero (.setVoltage v) ::
    (cmds.map fun cmd => mustBeZero (.diseqcSendMasterCmd cmd)) ++
    [⟨.diseqcSendBurst burst, fun err => decide (err ≠ 0), id⟩, mustNotFail (.setTone t)])

/-- `unicable_send_msg` -/
def unicableSendMsg (cmds : List (List UInt8)) : Line Request → Int × Line Request :=
  perform (mustBeZero (.setTone false) :: mustBeZero (.setVoltage .v18) ::
    (cmds.map fun cmd => mustBeZero (.diseqcSendMasterCmd cmd)) ++
    [mustNotFail (.setVoltage .v13)])

/-- `switch_type`: U, C, B, N, J or another character. -/
inductive SwitchType where
  | uncommitted | committed | both | unicable | jess | other
  deriving DecidableEq, Repr

/-- What the code does not decide: whether `malloc` has a block when so many requests have been
made, what it contains as a message, and what a number becomes that a `uint16_t` does not hold. -/
structure Machine where
  granted : Nat → Bool
  fresh : List UInt8
  outOfRange : Nat → UInt16

/-- A bit of a byte. -/
def bit (set : Bool) (mask : UInt8) : UInt8 := if set then mask else 0

/-- `0xf0 | ((((sat_no-1) * 4) & 0x0f) | (pol_v_r ? 0 : 2) | (hi_lo ? 1 : 0))`, or the switch input
when there is one. -/
def portByte (satNo : UInt8) (switchNo : Int) (polVR hiLo : Bool) : UInt8 :=
  if switchNo ≠ -1 then 0xf0 ||| (UInt8.ofInt switchNo &&& 0x0f)
  else 0xf0 ||| ((UInt8.ofInt (((satNo.toNat : Int) - 1) * 4) &&& 0x0f) |||
    bit (!polVR) 2 ||| bit hiLo 1)

def lnbVoltage (lnbVoltageOff polVR : Bool) : Voltage :=
  if lnbVoltageOff then .off else if polVR then .v13 else .v18

/-- `do_diseqc` -/
def doDiseqc (m : Machine) (satNo : UInt8) (switchNo : Int) (switchType : SwitchType)
    (polVR hiLo lnbVoltageOff diseqcRepeat : Bool) (line : Line Request) : Int × Line Request :=
  if switchType = .unicable ∨ switchType = .jess then (-1, line)
  else if switchType = .both ∨ switchType = .uncommitted ∨ switchType = .committed then
    if m.granted line.calls.length = false then (-1, line)
    else
      let group : UInt8 := if switchType = .uncommitted then 0x39 else 0x38
      let send (framing : UInt8) :=
        diseqcSendMsg (lnbVoltage lnbVoltageOff polVR)
          [[framing, 0x10, group, portByte satNo switchNo polVR hiLo]] hiLo
          (if satNo.toNat % 2 = 1 then .miniB else .miniA)
      let sent := send 0xe0 line
      if diseqcRepeat then send 0xe1 sent.2 else sent
  else
    perform [mustNotFail (.setVoltage (lnbVoltage lnbVoltageOff polVR)),
      mustNotFail (.setTone hiLo)] line

/-- `t = (uint16_t) (ROUND((((*fefrequency / 1000) + uni_freq + 2) / 4) - 350))`, where the sum and
the difference are `uint32_t`. -/
def unicableWord (m : Machine) (fefrequency uniFreq : Nat) : UInt16 :=
  let x := ((fefrequency / 1000 + uniFreq + 2) % 2 ^ 32 / 4 + (2 ^ 32 - 350)) % 2 ^ 32
  if x < 2 ^ 16 then UInt16.ofNat x else m.outOfRange x

/-- `t = (uint16_t) ((*fefrequency / 1000) - 100)` -/
def jessWord (fefrequency : Nat) : UInt16 := UInt16.ofNat (fefrequency / 1000 + (2 ^ 32 - 100))

/-- `channel_byte_1` of the first kind of SCR. -/
def unicableByte (satNo : UInt8) (switchNo : Int) (polVR hiLo : Bool) (t : UInt16) : UInt8 :=
  UInt8.ofInt (switchNo * 32) ||| bit (satNo != 1) 16 ||| bit (!polVR) 8 ||| bit hiLo 4 |||
    ((t >>> 8).toUInt8 &&& 0x03)

/-- The message of the first kind of SCR, for a framing byte. -/
def unicableMessage (satNo : UInt8) (switchNo pinNo : Int) (polVR hiLo : Bool) (t : UInt16)
    (framing : UInt8) : List UInt8 :=
  if 0 < pinNo then [framing, 0x10, 0x5c, unicableByte satNo switchNo polVR hiLo t,
    (t &&& 0xff).toUInt8, UInt8.ofInt pinNo]
  else [framing, 0x10, 0x5a, unicableByte satNo switchNo polVR hiLo t, (t &&& 0xff).toUInt8]

/-- `channel_byte_1` and `channel_byte_3` of the second kind. -/
def jessByte1 (switchNo : Int) (t : UInt16) : UInt8 :=
  ((UInt8.ofInt switchNo &&& 0x1f) <<< 3) ||| ((t >>> 8).toUInt8 &&& 0x07)

def jessByte3 (satNo : UInt8) (polVR hiLo : Bool) : UInt8 :=
  ((UInt8.ofInt ((satNo.toNat : Int) - 1) &&& 0x3f) <<< 2) ||| bit (!polVR) 2 ||| bit hiLo 1

/-- The message of the second kind. -/
def jessMessage (satNo : UInt8) (switchNo pinNo : Int) (polVR hiLo : Bool) (t : UInt16) :
    List UInt8 :=
  if 0 < pinNo then [0x71, jessByte1 switchNo t, (t &&& 0xff).toUInt8, jessByte3 satNo polVR hiLo,
    UInt8.ofInt pinNo]
  else [0x70, jessByte1 switchNo t, (t &&& 0xff).toUInt8, jessByte3 satNo polVR hiLo]

/-- The messages of `do_unicable`, the first and the repeated one, and the frequency that
it leaves. -/
def unicablePlan (m : Machine) (satNo : UInt8) (switchNo pinNo : Int) (switchType : SwitchType)
    (polVR hiLo : Bool) (fefrequency uniFreq : Nat) : List UInt8 × List UInt8 × Nat :=
  match switchType with
  | .unicable =>
    let t := unicableWord m fefrequency uniFreq
    let message := unicableMessage satNo switchNo pinNo polVR hiLo t
    (message 0xe0, message 0xe1,
      ((t.toNat + 350) * 4 + (2 ^ 32 - fefrequency / 1000)) % 2 ^ 32 * 1000 % 2 ^ 32)
  | .jess =>
    let message := jessMessage satNo switchNo pinNo polVR hiLo (jessWord fefrequency)
    (message, message, uniFreq * 1000 % 2 ^ 32)
  -- the message is not written
  | _ => (m.fresh, m.fresh, fefrequency)

/-- `do_unicable`: what it returns, and the frequency. -/
def doUnicable (m : Machine) (satNo : UInt8) (switchNo pinNo : Int) (switchType : SwitchType)
    (polVR hiLo diseqcRepeat : Bool) (fefrequency uniFreq : Nat) (line : Line Request) :
    (Int × Line Request) × Nat :=
  if m.granted line.calls.length = false then ((-1, line), fefrequency)
  else
    let plan := unicablePlan m satNo switchNo pinNo switchType polVR hiLo fefrequency uniFreq
    let sent := unicableSendMsg [plan.1] line
    (if diseqcRepeat then unicableSendMsg [plan.2.1] sent.2 else sent, plan.2.2)

inductive Polarisation where
  | vertical | horizontal | left | right
  deriving DecidableEq, Repr

inductive LnbType where
  | universal | standard
  deriving DecidableEq, Repr

/-- The fields of `tune_p_t` that the tuning to a satellite reads. The frequency is in whole kHz:
what is below does not change its order with `lnb_slof`. -/
structure TuneParameters where
  freq : Int
  pol : Polarisation
  lnbType : LnbType
  lnbLofStandard : Nat
  lnbSlof : Nat
  lnbLofLow : Nat
  lnbLofHigh : Nat
  lnbVoltageOff : Bool
  satNumber : UInt8
  switchNo : Int
  pinNo : Int
  switchType : SwitchType
  diseqcRepeat : Bool
  uniFreq : Nat
  deliverySystemDefined : Bool

/-- `(pol == 'V' ? 1 : 0) + (pol == 'R' ? 1 : 0)` -/
def TuneParameters.polVR (p : TuneParameters) : Bool :=
  decide (p.pol = .vertical) || decide (p.pol = .right)

/-- The band of the LNB. -/
def TuneParameters.hiLo (p : TuneParameters) : Bool :=
  match p.lnbType with
  | .universal => if p.freq < p.lnbSlof then false else true
  | .standard => false

/-- Its local oscillator. -/
def TuneParameters.loFrequency (p : TuneParameters) : Nat :=
  match p.lnbType with
  | .universal => if p.freq < p.lnbSlof then p.lnbLofLow else p.lnbLofHigh
  | .standard => p.lnbLofStandard

/-- `feparams.frequency=abs((int)tuneparams->freq-(int)lo_frequency)` -/
def TuneParameters.frequency (p : TuneParameters) : Nat :=
  (int p.freq - int p.loFrequency).natAbs

/-- `do_diseqc` with the arguments that `tune_it` gives. -/
def TuneParameters.diseqc (m : Machine) (p : TuneParameters) : Line Request → Int × Line Request :=
  doDiseqc m p.satNumber p.switchNo p.switchType p.polVR p.hiLo p.lnbVoltageOff p.diseqcRepeat

/-- `do_unicable` with the arguments that `tune_it` gives, and what it is going to send. -/
def TuneParameters.unicable (m : Machine) (p : TuneParameters) :
    Line Request → (Int × Line Request) × Nat :=
  doUnicable m p.satNumber p.switchNo p.pinNo p.switchType p.polVR p.hiLo p.diseqcRepeat p.frequency
    p.uniFreq

def TuneParameters.plan (m : Machine) (p : TuneParameters) : List UInt8 × List UInt8 × Nat :=
  unicablePlan m p.satNumber p.switchNo p.pinNo p.switchType p.polVR p.hiLo p.frequency p.uniFreq

/-- The requests that tune the front end. -/
def setFrontend (p : TuneParameters) (frequency : Nat) : Line Request → Int × Line Request :=
  if p.deliverySystemDefined then
    perform [⟨.clearProperties, fun err => decide (err = -1), fun _ => -1⟩,
      ⟨.setProperties frequency, fun err => decide (err = -1), fun _ => -1⟩]
  else perform [mustNotFail (.setFrontend frequency)]

/-- `tune_it` for a satellite, up to the check of the status: what it returns, and the switch type
that it leaves. -/
def tuneIt (m : Machine) (p : TuneParameters) (line : Line Request) :
    Int × TuneParameters × Line Request :=
  if 0 < p.uniFreq then
    let sent := p.unicable m line
    if sent.1.1 = 0 then
      let tuned := setFrontend p sent.2 sent.1.2
      (tuned.1, p, tuned.2)
    else (-1, p, sent.1.2)
  else if p.switchType = .both then
    let p := { p with switchType := .uncommitted }
    let sent := p.diseqc m line
    if sent.1 = 0 then
      let p := { p with switchType := .committed }
      let sent := p.diseqc m sent.2
      if sent.1 = 0 then
        let tuned := setFrontend p p.frequency sent.2
        (tuned.1, p, tuned.2)
      else (-1, p, sent.2)
    else (-1, p, sent.2)
  else
    let sent := p.diseqc m line
    if sent.1 = 0 then
      let tuned := setFrontend p p.frequency sent.2
      (tuned.1, p, tuned.2)
    else (-1, p, sent.2)

/-- The calls of `tune_it` one after the other, as the monitoring makes them: what the last
one returned, and what it left. -/
def tunes (m : Machine) : Nat → Int × TuneParameters × Line Request →
    Int × TuneParameters × Line Request
  | 0, last => last
  | n + 1, last => tunes m n (tuneIt m last.2.1 last.2.2)

end MuMuDVB.SatelliteSwitch
