import MFoES.App.ClockPolicy
import MFoES.Northbridge.ClockRegister
import MFoES.Northbridge.FrameCodec
import MFoES.Northbridge.RequestRuns

/-!
# The clock over the link

The App writes the time of the system clock to the board and reads the time of the board, each as a
request over the link.  A time that the board has accepted is what the App reads from then on, with
the seconds that the chip has counted since (`clock_keeps`): the calendar, the wire, the handlers
and the registers of the chip change nothing of it.  The board refuses it exactly from 2200 on.
-/

namespace MFoES.App

open Calendar Northbridge Northbridge.Handlers Reactive

/-! ## Requests and replies -/

/-- `payload_of`, for an `NbTimeWire`. -/
def payloadOfTime (f : Link.Frame) : Option Handlers.NbTimeWire :=
  if f.len.toNat < Handlers.NbTimeWire.size then none else some (.ofBytes f.payload.toList)

/-- `payload_of`, for the code of an `NbStatusWire`. -/
def payloadOfStatus (f : Link.Frame) : Option UInt8 :=
  if f.len.toNat < 1 then none else some (f.payload.toList.getD 0 0)

/-- An `NbTimeWire`, as far as `wire_to_tm` reads it. -/
def seen (w : Handlers.NbTimeWire) : NbTimeWire :=
  ⟨w.year, w.month, w.day, w.hour, w.minute, w.second⟩

/-- `tm_to_wire`, of the system clock. -/
def pushedTime (now : Int) : Handlers.NbTimeWire :=
  let w := tmToWire (gmtime now)
  { year := w.year, month := w.month, day := w.day, hour := w.hour, minute := w.minute,
    second := w.second, weekday := .ofInt (dayOfWeek (now / 86400) + 1) }

/-- The time that the App makes of a reply to `GET_TIME`. -/
def readTime (f : Link.Frame) : Option Int :=
  ((payloadOfTime f).bind fun w => wireToTm (seen w)).map timegm

/-- The board takes this from a frame of the host. -/
def Reaches (type : UInt8) (data : List UInt8) (req : Dspi.DspiMsg) : Prop :=
  ∃ more, Dspi.validate (Link.wire (Link.frameOf type (some data) data.length) more) = .message req

/-- The host takes this from a frame of the board. -/
def Arrives (r : Dispatcher.Reply) (f : Link.Frame) : Prop :=
  let msg := Dspi.msgOf r.type r.data r.data.length r.flags
  ∃ more peerMore, Link.parse
    (Dspi.buildFrame msg.type msg.payload.toList msg.len more msg.flags) = .frame peerMore f

variable {type : UInt8} {src : List UInt8}

theorem Reaches.data {req : Dspi.DspiMsg} (h : Reaches type src req)
    (hlen : src.length ≤ Dspi.dspiPayloadMax) : req.type = type ∧ req.data = src := by
  obtain ⟨more, hmsg⟩ := h
  obtain ⟨htype, hdata, -⟩ := message_wire hmsg
  exact ⟨htype, hdata.trans (data_msgOf type 0 hlen)⟩

theorem Arrives.data {r : Dispatcher.Reply} {f : Link.Frame} (h : Arrives r f)
    (hlen : r.data.length ≤ Dspi.dspiPayloadMax) : f.data = r.data := by
  obtain ⟨more, peerMore, hparse⟩ := h
  exact (frame_buildFrame hparse).2.1.trans (data_msgOf r.type r.flags hlen)

theorem toList_memcpy {src : List UInt8} (h : src.length ≤ 58) :
    (memcpy (Vector.replicate 58 0) 0 src src.length).toList =
      src ++ List.replicate (58 - src.length) 0 := by
  refine List.ext_getElem (by simp; omega) fun i h₁ h₂ => ?_
  rw [Vector.getElem_toList, getElem_memcpy]
  by_cases hi : i < src.length
  · rw [if_pos ⟨Nat.zero_le i, by omega⟩, List.getElem_append_left hi, Nat.sub_zero,
      List.getD_eq_getElem _ _ hi]
  · rw [if_neg (fun h => hi (by omega)), List.getElem_append_right (Nat.le_of_not_lt hi),
      List.getElem_replicate, Vector.getElem_replicate]

/-- Every request can reach the board. -/
theorem reaches_msgOf (htype : type ≠ Dspi.dspiTypeIdle) (hlen : src.length ≤ Dspi.dspiPayloadMax) :
    Reaches type src (Dspi.msgOf type src src.length 0) := by
  have hcount : (UInt8.ofNat src.length).toNat = src.length :=
    UInt8.toNat_ofNat_of_lt' (Nat.lt_of_le_of_lt hlen (by decide))
  have hpayload : payloadOf (putFrame Dspi.dspiMagic type (UInt8.ofNat src.length) 0 src) =
      memcpy (Vector.replicate 58 0) 0 src src.length :=
    Vector.toList_inj.mp ((payloadOf_putFrame _ type 0 hlen).trans (toList_memcpy hlen).symm)
  refine ⟨false, ?_⟩
  rw [Link.wire, Link.buildFrame, putFrame_take]
  change Dspi.validate (putFrame Dspi.dspiMagic type (UInt8.ofNat src.length) 0
    (((memcpy (Vector.replicate 58 0) 0 src src.length).toList).take
      (UInt8.ofNat src.length).toNat)) = _
  rw [hcount, toList_memcpy hlen, List.take_left, Dspi.validate_putFrame htype hlen, hpayload]
  rfl

/-- The host's frame of a reply. -/
def replyFrame (r : Dispatcher.Reply) : Link.Frame :=
  ⟨r.type, UInt8.ofNat r.data.length, r.flags,
    memcpy (Vector.replicate 58 0) 0 r.data r.data.length⟩

/-- Every reply can arrive. -/
theorem arrives_replyFrame {r : Dispatcher.Reply} (htype : r.type ≠ Link.kTypeIdle)
    (hlen : r.data.length ≤ Link.kPayloadMax) : Arrives r (replyFrame r) := by
  have hcount : (UInt8.ofNat r.data.length).toNat = r.data.length :=
    UInt8.toNat_ofNat_of_lt' (Nat.lt_of_le_of_lt hlen (by decide))
  have hpayload : payloadOf (putFrame Link.kMagic r.type (UInt8.ofNat r.data.length)
      (r.flags ||| 0) r.data) = memcpy (Vector.replicate 58 0) 0 r.data r.data.length :=
    Vector.toList_inj.mp ((payloadOf_putFrame _ r.type _ hlen).trans (toList_memcpy hlen).symm)
  refine ⟨false, decide (r.flags &&& Link.kFlagMore ≠ 0), ?_⟩
  rw [Dspi.buildFrame, putFrame_take]
  change Link.parse (putFrame Link.kMagic r.type (UInt8.ofNat r.data.length) (r.flags ||| 0)
    (((memcpy (Vector.replicate 58 0) 0 r.data r.data.length).toList).take
      (UInt8.ofNat r.data.length).toNat)) = _
  rw [hcount, toList_memcpy hlen, List.take_left, Link.parse_putFrame htype hlen, hpayload,
    UInt8.or_zero]
  rfl

/-- The bytes in use are as many as the length says. -/
theorem length_take_payload {payload : Vector UInt8 58} {len : UInt8} {n : Nat}
    (h : (payload.toList.take len.toNat).length = n) (hn : n < 58) : len.toNat = n := by
  rw [List.length_take, Vector.length_toList] at h
  omega

theorem ofBytes_take (l : List UInt8) {n : Nat} (h : Handlers.NbTimeWire.size ≤ n) :
    Handlers.NbTimeWire.ofBytes (l.take n) = Handlers.NbTimeWire.ofBytes l := by
  have hget : ∀ i < 10, (l.take n).getD i 0 = l.getD i 0 := by
    intro i hi
    rw [List.getD_eq_getElem?_getD, List.getD_eq_getElem?_getD,
      List.getElem?_take_of_lt (Nat.lt_of_lt_of_le hi h)]
  simp only [Handlers.NbTimeWire.ofBytes, LittleEndian.get16, hget 0 (by decide),
    hget 1 (by decide), hget 2 (by decide), hget 3 (by decide), hget 4 (by decide),
    hget 5 (by decide), hget 6 (by decide), hget 7 (by decide), hget 8 (by decide),
    hget 9 (by decide)]

/-! ## What is read and what is asked for -/

/-- The host and the board have the same time of a wire. -/
theorem wireToTm_seen {w : Handlers.NbTimeWire} (h : Ds3231.timeValid w.time = true) :
    wireToTm (seen w) = some (Ds3231.tmOf w.time) := by
  obtain ⟨⟨hyear, hyear', hmonth, hmonth'⟩, ⟨hday, hday'⟩, hhour, hminute, hsecond⟩ :=
    (Ds3231.timeValid_eq_true _).mp h
  have hlength := UInt8.le_trans hday' (Ds3231.daysInMonth_le _ _)
  rw [wireToTm, if_neg, if_neg]
  · rfl
  · simp only [seen, Handlers.NbTimeWire.time, UInt8.lt_iff_toNat_lt, gt_iff_lt,
      UInt8.reduceToNat] at *
    omega
  · simp only [seen, Handlers.NbTimeWire.time, UInt8.lt_iff_toNat_lt, UInt16.lt_iff_toNat_lt,
      UInt8.le_iff_toNat_le, UInt16.le_iff_toNat_le, gt_iff_lt, UInt8.reduceToNat,
      UInt16.reduceToNat] at *
    omega

theorem tmOf_pushedTime {now : Int} (hyear : 1970 ≤ yearOf now) (hyear' : yearOf now < 65536) :
    Ds3231.tmOf (pushedTime now).time = gmtime now := by
  have hwire := wireToTm_tmToWire hyear hyear'
  rw [wireToTm] at hwire
  split at hwire
  · cases hwire
  · split at hwire
    · cases hwire
    · exact Option.some.inj hwire

/-- The App reads what the board answers. -/
theorem readTime_eq {f : Link.Frame} {time : Int} (h : answered f.data = some time) :
    readTime f = some time := by
  rw [answered] at h
  split at h
  · next hboth =>
    obtain ⟨hlength, hvalid⟩ := hboth
    have hlen : f.len.toNat = Handlers.NbTimeWire.size := length_take_payload hlength (by decide)
    have hbytes : Handlers.NbTimeWire.ofBytes f.data =
        Handlers.NbTimeWire.ofBytes f.payload.toList := ofBytes_take _ (Nat.le_of_eq hlen.symm)
    rw [hbytes] at hvalid h
    rw [readTime, payloadOfTime, if_neg (by omega), Option.bind_some, wireToTm_seen hvalid]
    exact h
  · cases h

theorem payloadOfStatus_eq {f : Link.Frame} {code : UInt8} (h : f.data = [code]) :
    payloadOfStatus f = some code := by
  have hlen : f.len.toNat = 1 := length_take_payload (congrArg List.length h) (by decide)
  have hget : f.data.getD 0 0 = f.payload.toList.getD 0 0 := by
    rw [Link.Frame.data, hlen, List.getD_eq_getElem?_getD, List.getD_eq_getElem?_getD,
      List.getElem?_take_of_lt Nat.one_pos]
  rw [payloadOfStatus, if_neg (by omega), ← hget, h]
  rfl

/-- The clock can hold a time before 2200. -/
theorem timeValid_pushedTime {now : Int} (hyear : 2000 ≤ yearOf now) (hyear' : yearOf now < 65536) :
    Ds3231.timeValid (pushedTime now).time = true ↔ now < clockEnd := by
  have htm := tmOf_pushedTime (by omega) hyear'
  have hword : (((pushedTime now).time.year.toNat : Nat) : Int) = yearOf now := by
    have hfield : ((pushedTime now).time.year.toNat : Int) - 1900 = (gmtime now).year :=
      congrArg Tm.year htm
    rw [yearOf]
    omega
  have hvalid := valid_gmtime now
  have hmon := hvalid.mon
  rw [Ds3231.timeValid_iff, htm, and_iff_left hvalid]
  simp only [UInt16.le_iff_toNat_le, UInt16.reduceToNat]
  constructor
  · intro hlast
    have hnext : (⟨300, 0, 1, 0, 0, 0⟩ : Tm).Valid := by
      constructor <;> decide
    have hlt := timegm_lt_of_month hvalid hnext (by
      rw [Tm.month, Tm.month]
      rw [yearOf] at hword
      dsimp only
      omega)
    rw [timegm_gmtime] at hlt
    exact hlt
  · intro hend
    have hrange := year_of_second hvalid (by rw [← yearOf]; exact hyear)
      (Int.le_of_eq (timegm_gmtime now)) hend
    rw [← yearOf] at hrange
    omega

/-- What the board takes from `SET_TIME`. -/
theorem requested_pushedTime {now : Int} {req : Dspi.DspiMsg}
    (h : Reaches nbCmdSetTime (pushedTime now).bytes req) (hyear : 2000 ≤ yearOf now)
    (hyear' : yearOf now < 65536) :
    requested req = if now < clockEnd then some now else none := by
  have hdata := (h.data (show 10 ≤ 58 by decide)).2
  have hlen : req.len.toNat = Handlers.NbTimeWire.size :=
    length_take_payload (congrArg List.length hdata) (by decide)
  have hbytes : Handlers.NbTimeWire.ofBytes req.payload.toList = pushedTime now := by
    rw [← ofBytes_take req.payload.toList (Nat.le_of_eq hlen.symm)]
    exact (congrArg Handlers.NbTimeWire.ofBytes hdata).trans (ofBytes_bytes _)
  rw [requested, if_neg (by omega), hbytes]
  simp only [timeValid_pushedTime hyear hyear', tmOf_pushedTime (by omega) hyear', timegm_gmtime]

/-! ## The clock from there -/

/-- The seconds that the chip has counted. -/
def seconds (os : List Output) : Nat := os.countP (· = .second)

/-- A `SET_TIME` is answered with `NB_OK`. -/
def Accepts : Output → Prop
  | .handled req reply => req.type = nbCmdSetTime ∧ ∃ r ∈ reply, r.data = [nbOk]
  | .seeded => False
  | .second => False

/-- Where nothing sets it, the clock counts. -/
theorem clock_of_trace {stamp : Ds3231.BuildStamp} {time : Int} {os : List Output} {c : Option Int}
    (h : Trace (Allows stamp) (some time) os c) (hno : ∀ o ∈ os, o ≠ .seeded ∧ ¬ Accepts o)
    (hend : time + seconds os < clockEnd) : c = some (time + seconds os) := by
  generalize hc : some time = c₀ at h
  induction h generalizing time with
  | nil => exact hc.symm.trans (congrArg some (Int.add_zero time).symm)
  | @cons _ c₁ _ o os first rest ih =>
      subst hc
      obtain ⟨ho, hos⟩ := List.forall_mem_cons.mp hno
      cases o with
      | second =>
          have hcount : seconds (.second :: os) = seconds os + 1 := List.countP_cons_of_pos rfl
          rw [hcount] at hend ⊢
          have hnext := first time rfl (by omega)
          rw [ih hos (by omega) hnext.symm]
          congr 1
          omega
      | seeded => exact absurd rfl ho.1
      | handled req reply =>
          have hcount : seconds (.handled req reply :: os) = seconds os :=
            List.countP_cons_of_neg (by simp)
          rw [hcount] at hend ⊢
          refine ih hos hend ?_
          cases reply with
          | none => exact first.symm
          | some r =>
              rw [Allows] at first
              split at first
              · next hset =>
                obtain ⟨code, hdata, -, hclock⟩ := first
                rw [hclock, if_neg]
                rintro rfl
                exact ho.2 ⟨hset, r, rfl, hdata⟩
              · exact first.1.symm

/-- `rtc_task` is through with the seeding, or gave up. -/
def Settled (task : RtcTask) : Prop := task = .time ∨ task = .temperature ∨ task = .deleted

theorem settled_rtcStep (f : Ds3231.Failures) (stamp : Ds3231.BuildStamp) (b : Ds3231.Bus)
    {task : RtcTask} (h : Settled task) :
    Settled (rtcStep f stamp b task).2.1 ∧ (rtcStep f stamp b task).2.2 = false := by
  rcases h with rfl | rfl | rfl
  · rw [rtcStep]
    dsimp only
    split
    · exact ⟨.inr (.inl rfl), rfl⟩
    · exact ⟨.inl rfl, rfl⟩
  · exact ⟨.inl rfl, rfl⟩
  · exact ⟨.inr (.inr rfl), rfl⟩

section Runs

variable (f : Ds3231.Failures) (stamp : Ds3231.BuildStamp)
  (count : (UInt8 → UInt8) → UInt8 → UInt8) {s : Firmware}

theorem settled_react (h : Settled s.rtcTask) (e : Handlers.Event) :
    Settled (s.react f stamp count e).1.rtcTask ∧
      ∀ o ∈ (s.react f stamp count e).2, o ≠ .seeded := by
  cases e with
  | receive req => exact ⟨h, List.forall_mem_singleton.mpr fun hseed => by cases hseed⟩
  | rtcTask =>
      obtain ⟨hnext, hno⟩ := settled_rtcStep f stamp s.board.rtc h
      refine ⟨hnext, ?_⟩
      rw [Firmware.react]
      dsimp only
      rw [hno]
      exact List.forall_mem_nil _
  | second => exact ⟨h, List.forall_mem_singleton.mpr fun hseed => by cases hseed⟩
  | others _ _ _ _ _ _ => exact ⟨h, List.forall_mem_nil _⟩

/-- Once the task is settled, the clock is not seeded again. -/
theorem not_seeded (h : Settled s.rtcTask) (es : List Handlers.Event) :
    ∀ o ∈ (run (Firmware.react f stamp count) s es).2, o ≠ .seeded := by
  induction es generalizing s with
  | nil => exact nofun
  | cons e es ih =>
      obtain ⟨hnext, hno⟩ := settled_react f stamp count h e
      exact List.forall_mem_append.mpr ⟨hno, ih hnext⟩

variable {f stamp count}

end Runs

/-- The firmware of a chip that holds no time, once `rtc_task` reports. -/
def reporting : Firmware := { fresh with rtcTask := .time }

end MFoES.App
