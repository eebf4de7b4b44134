import BaturWhatsApi.Decimal
import BaturWhatsApi.Encodability
import BaturWhatsApi.DefaultTokens

/-!
# JIDs on the wire and as text

A JID is written in one of four wire forms, and each form has room for some of the fields
only. Its text has four forms as well, of which `ParseJID` reads three: the one with an agent
is taken apart at the dot, and what is behind the dot is then no number. A device is printed
for two of the servers and an integrator for none.
-/
namespace BaturWhatsApi.JidRoundTrips
open ByteStrings TokenDictionary NodeModel NodeEncoder NodeDecoder NodeRoundTrip StringCodec
open Encodability PositionalReaders.Reader

/-! ### The wire -/

/-- A JID is read back unchanged exactly when it has only fields that its form has room for, and
its strings can be written. -/
theorem writeJID_read_back_iff (d : Dictionary) (hd : d.WellFormed) (j : JID) (asString : Bool) :
    (∃ w, writeJID d j = .ok w ∧ readContent d asString w 0 = .ok (.jid j,w.length)) ↔
      WireJID j ∧ Writable d j.user ∧ Writable d j.server := by
  have hread : ∀ w, writeJID d j = .ok w →
      (readContent d asString w 0 = .ok (.jid j,w.length) ↔ WireJID j) := by
    intro w hw
    rw [(writeJID_yields hd hw asString).ok_iff,← rereadJID_eq_iff,Option.map_eq_some_iff]
    simp
  rw [← writeJID_ok_iff]
  constructor
  · rintro ⟨w,hw,hr⟩
    exact ⟨(hread w hw).mp hr,w,hw⟩
  · rintro ⟨hj,w,hw⟩
    exact ⟨w,hw,(hread w hw).mpr hj⟩

theorem writable_short {d : Dictionary} {s : Bytes} (h : s.length ≤ 14) : Writable d s :=
  writable_of_short (lt_of_le_of_lt h (by decide))

/-- A device above 255 loses its high byte. -/
theorem device_truncated :
    ∃ w, writeJID DefaultTokens.default {user := text "1",device := 300,server := serverUser} =
        .ok w ∧
      readContent DefaultTokens.default true w 0 =
        .ok (.jid {user := text "1",device := 44,server := serverUser},w.length) := by
  obtain ⟨w,hw⟩ := (writeJID_ok_iff (d := DefaultTokens.default)
    (j := {user := text "1",device := 300,server := serverUser})).mpr
      ⟨writable_short (by decide),writable_short (by decide)⟩
  exact ⟨w,hw,(writeJID_yields DefaultTokens.default_wellFormed hw true).ok_iff.mpr rfl⟩

theorem device_read_back :
    ∃ w, writeJID DefaultTokens.default {user := text "1",device := 7,server := serverUser} =
        .ok w ∧
      readContent DefaultTokens.default true w 0 =
        .ok (.jid {user := text "1",device := 7,server := serverUser},w.length) :=
  (writeJID_read_back_iff DefaultTokens.default DefaultTokens.default_wellFormed
    {user := text "1",device := 7,server := serverUser} true).mpr
      ⟨⟨by decide,by decide⟩,writable_short (by decide),writable_short (by decide)⟩

/-! ### Text -/

/-- `strings.Cut` at a single byte. -/
def cut (sep : UInt8) : Bytes → Option (Bytes × Bytes)
  | [] => none
  | b::bs => if b = sep then some ([],bs) else (cut sep bs).map fun r => (b::r.1,r.2)

/-- The same at the last occurrence. -/
def cutLast (sep : UInt8) : Bytes → Option (Bytes × Bytes)
  | [] => none
  | b::bs =>
      match cutLast sep bs with
      | some r => some (b::r.1,r.2)
      | none => if b = sep then some ([],bs) else none

def parseUint (bits : ℕ) (s : Bytes) : Option ℕ :=
  (Decimal.read s).bind fun n => if n < 2^bits then some n else none

inductive ParseError where
  | empty
  | badIntegrator (raw : Bytes)
  | badAgent (raw : Bytes)
  | badDevice (raw : Bytes)
deriving DecidableEq, Repr

/-- The number behind a separator, which is 0 if there is none. -/
def suffix (sep : UInt8) (bits : ℕ) (err : ParseError) (user : Bytes) :
    Except ParseError (Bytes × ℕ) :=
  match cut sep user with
  | none => .ok (user,0)
  | some (u,digits) =>
      match parseUint bits digits with
      | none => .error err
      | some n => .ok (u,n)

/-- The user is split at its first dot, and what is left at its first colon. -/
def parseUser (raw user server : Bytes) (integrator : ℕ) : Except ParseError JID := do
  let (user,agent) ← suffix 46 8 (.badAgent raw) user
  let (user,device) ← suffix 58 16 (.badDevice raw) user
  .ok
    {user := user
     rawAgent := UInt8.ofNat agent
     device := UInt16.ofNat device
     integrator := UInt16.ofNat integrator
     server := server}

def parseJID (raw : Bytes) : Except ParseError JID :=
  match cut 64 raw with
  | none => if raw = [] then .error .empty else .ok {user := [],server := raw}
  | some (user,server) =>
      match cutLast 64 user with
      | none => parseUser raw user server 0
      | some (u,digits) =>
          match parseUint 16 digits with
          | none => .error (.badIntegrator raw)
          | some n => parseUser raw u serverInterop n

def Node.jidAttr (n : Node) (key : Bytes) : Option JID :=
  match n.attrs.lookup key with
  | some (.jid j) => some j
  | some (.str s) => (parseJID s).toOption
  | _ => none

theorem cut_of_not_mem {sep : UInt8} {s : Bytes} (h : sep ∉ s) : cut sep s = none := by
  induction s with
  | nil => rfl
  | cons b bs ih =>
      obtain ⟨hb,hbs⟩ := List.ne_and_not_mem_of_not_mem_cons h
      rw [cut,if_neg (Ne.symm hb),ih hbs]
      rfl

theorem cut_append {sep : UInt8} {s : Bytes} (h : sep ∉ s) (t : Bytes) :
    cut sep (s++sep::t) = some (s,t) := by
  induction s with
  | nil => exact if_pos rfl
  | cons b bs ih =>
      obtain ⟨hb,hbs⟩ := List.ne_and_not_mem_of_not_mem_cons h
      rw [List.cons_append,cut,if_neg (Ne.symm hb),ih hbs]
      rfl

theorem cutLast_of_not_mem {sep : UInt8} {s : Bytes} (h : sep ∉ s) : cutLast sep s = none := by
  induction s with
  | nil => rfl
  | cons b bs ih =>
      obtain ⟨hb,hbs⟩ := List.ne_and_not_mem_of_not_mem_cons h
      simp only [cutLast,ih hbs,if_neg (Ne.symm hb)]

theorem not_mem_number {b : UInt8} (h : ¬(48 ≤ b ∧ b ≤ 57)) (n : ℕ) : b ∉ formatUint n :=
  fun hb => h (Decimal.digit_of_mem_text hb)

theorem parseUint_number {bits n : ℕ} (h : n < 2^bits) :
    parseUint bits (formatUint n) = some n := by
  rw [parseUint,formatUint,Decimal.read_text,Option.bind_some,if_pos h]

/-- A number with another byte in it is none. -/
theorem parseUint_of_mem {bits : ℕ} {s : Bytes} {b : UInt8} (hb : b ∈ s)
    (h : ¬(48 ≤ b ∧ b ≤ 57)) : parseUint bits s = none := by
  have hread : Decimal.read s = none := by
    rw [Decimal.read]
    split_ifs
    · rfl
    · rw [Option.eq_none_iff_forall_ne_some]
      exact fun n hn => h (Decimal.mem_of_readFrom hn hb)
  rw [parseUint,hread]
  rfl

theorem suffix_none {sep : UInt8} {bits : ℕ} {err : ParseError} {user : Bytes} (h : sep ∉ user) :
    suffix sep bits err user = .ok (user,0) := by rw [suffix,cut_of_not_mem h]

theorem suffix_number {sep : UInt8} {bits n : ℕ} {err : ParseError} {user : Bytes} (h : sep ∉ user)
    (hn : n < 2^bits) : suffix sep bits err (user++sep::formatUint n) = .ok (user,n) := by
  simp only [suffix,cut_append h,parseUint_number hn]

/-- The branch for an integrator is never taken, since the user ends at the first at sign. -/
theorem parseJID_at {user : Bytes} (h : 64 ∉ user) (server : Bytes) :
    parseJID (user++64::server) = parseUser (user++64::server) user server 0 := by
  simp only [parseJID,cut_append h,cutLast_of_not_mem h]

section
variable {j : JID} (hs : j.server ≠ [])
include hs

theorem string_agent (ha : 0 < j.rawAgent) :
    j.string = (j.user++46::(formatUint j.rawAgent.toNat++58::formatUint j.device.toNat))++
      64::j.server := by
  have hdot : text "." = [46] := rfl
  have hcolon : text ":" = [58] := rfl
  have hat : text "@" = [64] := rfl
  rw [JID.string,if_neg hs,if_pos ha,hdot,hcolon,hat]
  simp only [List.append_assoc,List.cons_append,List.nil_append]

theorem string_device (ha : j.rawAgent = 0) (hd : 0 < j.device)
    (hserver : j.server = serverUser ∨ j.server = serverLID) :
    j.string = (j.user++58::formatUint j.device.toNat)++64::j.server := by
  have hcolon : text ":" = [58] := rfl
  have hat : text "@" = [64] := rfl
  rw [JID.string,if_neg hs,if_neg (by rw [ha]; decide),if_pos ⟨hd,hserver⟩,hcolon,hat]
  simp only [List.append_assoc,List.cons_append,List.nil_append]

theorem string_plain (ha : j.rawAgent = 0)
    (hd : ¬(0 < j.device ∧ (j.server = serverUser ∨ j.server = serverLID))) (hu : j.user ≠ []) :
    j.string = j.user++64::j.server := by
  have hat : text "@" = [64] := rfl
  rw [JID.string,if_neg hs,if_neg (by rw [ha]; decide),if_neg hd,if_pos hu,hat]
  simp only [List.append_assoc,List.cons_append,List.nil_append]

variable (hat : 64 ∉ j.user) (hdot : 46 ∉ j.user)
include hat hdot

/-- Behind the dot stands the agent with the colon and the device, which is no number. -/
theorem parse_agent (ha : 0 < j.rawAgent) : ∃ raw, parseJID j.string = .error (.badAgent raw) := by
  have hdigits : (64 : UInt8) ∉ formatUint j.rawAgent.toNat++58::formatUint j.device.toNat := by
    rw [List.mem_append,List.mem_cons]
    rintro (h | h | h)
    · exact not_mem_number (by decide) _ h
    · exact absurd h (by decide)
    · exact not_mem_number (by decide) _ h
  have hno : (64 : UInt8) ∉
      j.user++46::(formatUint j.rawAgent.toNat++58::formatUint j.device.toNat) := by
    rw [List.mem_append,List.mem_cons]
    rintro (h | h | h)
    · exact hat h
    · exact absurd h (by decide)
    · exact hdigits h
  have hnone : parseUint 8 (formatUint j.rawAgent.toNat++58::formatUint j.device.toNat) = none :=
    parseUint_of_mem (b := 58) (by simp) (by decide)
  rw [string_agent hs ha,parseJID_at hno,parseUser,suffix,cut_append hdot]
  simp only [hnone]
  exact ⟨_,rfl⟩

variable (hcolon : 58 ∉ j.user)
include hcolon

theorem parse_device (ha : j.rawAgent = 0) (hd : 0 < j.device)
    (hserver : j.server = serverUser ∨ j.server = serverLID) :
    parseJID j.string = .ok {user := j.user,device := j.device,server := j.server} := by
  have hno : ∀ b : UInt8, b ∉ j.user → ¬(48 ≤ b ∧ b ≤ 57) → b ≠ 58 →
      b ∉ j.user++58::formatUint j.device.toNat := by
    intro b hb hdigit hne
    rw [List.mem_append,List.mem_cons]
    rintro (h | h | h)
    · exact hb h
    · exact hne h
    · exact not_mem_number hdigit _ h
  rw [string_device hs ha hd hserver,parseJID_at (hno 64 hat (by decide) (by decide)),parseUser,
    suffix_none (hno 46 hdot (by decide) (by decide))]
  change (suffix 58 16 _ (j.user++58::formatUint j.device.toNat)).bind _ = _
  rw [suffix_number hcolon j.device.toNat_lt]
  simp only [Except.bind,UInt16.ofNat_toNat]
  rfl

theorem parse_plain (ha : j.rawAgent = 0)
    (hd : ¬(0 < j.device ∧ (j.server = serverUser ∨ j.server = serverLID))) (hu : j.user ≠ []) :
    parseJID j.string = .ok (newJID j.user j.server) := by
  rw [string_plain hs ha hd hu,parseJID_at hat,parseUser,suffix_none hdot]
  change (suffix 58 16 _ j.user).bind _ = _
  rw [suffix_none hcolon]
  rfl

theorem parse_string_iff (hu : j.user ≠ []) :
    parseJID j.string = .ok j ↔ j.rawAgent = 0 ∧ j.integrator = 0 ∧
      (j.device = 0 ∨ j.server = serverUser ∨ j.server = serverLID) := by
  by_cases ha : j.rawAgent = 0
  · by_cases hd : 0 < j.device ∧ (j.server = serverUser ∨ j.server = serverLID)
    · rw [parse_device hs hat hdot hcolon ha hd.1 hd.2,Except.ok.injEq,JID.mk.injEq]
      simp only [true_and,and_true,ha,hd.2,or_true]
      exact eq_comm
    · have hdevice : j.device = 0 ∨ j.server = serverUser ∨ j.server = serverLID ↔
          j.device = 0 := by
        refine ⟨fun h => h.elim id fun hserver => ?_,.inl⟩
        exact UInt16.le_zero_iff.mp (UInt16.not_lt.mp fun hpos => hd ⟨hpos,hserver⟩)
      rw [parse_plain hs hat hdot hcolon ha hd hu,Except.ok.injEq,newJID,JID.mk.injEq,hdevice]
      simp only [true_and,ha,eq_comm,and_comm]
  · obtain ⟨raw,hraw⟩ := parse_agent hs hat hdot (UInt8.pos_iff_ne_zero.mpr ha)
    rw [hraw]
    refine iff_of_false (fun h => ?_) fun h => ha h.1
    cases h

end

/-- A JID attribute gives the same JID through its text. -/
def Agree (j : JID) : Prop :=
  ∀ (n : Node) (key : Bytes), n.attrs.lookup key = some (.jid j) →
    (n.stringAttr key).bind (fun s => (parseJID s).toOption) = Node.jidAttr n key

theorem agree_iff (j : JID) : Agree j ↔ parseJID j.string = .ok j := by
  have hattr : ∀ (n : Node) (key : Bytes), n.attrs.lookup key = some (.jid j) →
      n.stringAttr key = some j.string ∧ Node.jidAttr n key = some j := by
    intro n key h
    constructor
    · simp only [Node.stringAttr,h,sprintValue]
    · simp only [Node.jidAttr,h]
  have hsome : (parseJID j.string).toOption = some j ↔ parseJID j.string = .ok j := by
    cases parseJID j.string with
    | error e => exact ⟨fun h => (nomatch h),fun h => (nomatch h)⟩
    | ok j' => exact ⟨fun h => congrArg _ (Option.some.inj h),fun h => congrArg _ (Except.ok.inj h)⟩
  constructor
  · intro h
    have hkey := h (.mk [] [([],.jid j)] .nil) [] rfl
    obtain ⟨hstring,hjid⟩ := hattr (.mk [] [([],.jid j)] .nil) [] rfl
    rw [hstring,hjid,Option.bind_some] at hkey
    exact hsome.mp hkey
  · intro h n key hkey
    obtain ⟨hstring,hjid⟩ := hattr n key hkey
    rw [hstring,hjid,Option.bind_some]
    exact hsome.mpr h

/-- The text of a JID is parsed as the JID, and attributes agree, exactly when the JID has no agent,
no integrator, and a device on two servers only. -/
theorem text_round_trip_iff (j : JID) (hs : j.server ≠ []) (hu : j.user ≠ []) (hat : 64 ∉ j.user)
    (hdot : 46 ∉ j.user) (hcolon : 58 ∉ j.user) :
    parseJID j.string = .ok j ∧ Agree j ↔ j.rawAgent = 0 ∧ j.integrator = 0 ∧
      (j.device = 0 ∨ j.server = serverUser ∨ j.server = serverLID) := by
  rw [agree_iff,and_self,parse_string_iff hs hat hdot hcolon hu]

/-- A JID with an agent and one of a hosted account with a device, as the decoder reads them. The
text of the first is refused, and the text of the second is another JID. -/
theorem text_not_parsed :
    readContent DefaultTokens.default true [adJID,5,1,binary8,1,49] 0 =
      .ok (.jid {user := text "1",rawAgent := 5,device := 1,server := serverUser},6) ∧
    parseJID (JID.string {user := text "1",rawAgent := 5,device := 1,server := serverUser}) =
      .error (.badAgent (text "1.5:1@s.whatsapp.net")) ∧
    readContent DefaultTokens.default true [adJID,128,1,binary8,1,49] 0 =
      .ok (.jid {user := text "1",device := 1,server := serverHosted},6) ∧
    parseJID (JID.string {user := text "1",device := 1,server := serverHosted}) =
      .ok {user := text "1",server := serverHosted} :=
  ⟨rfl,by decide +kernel,rfl,by decide +kernel⟩

theorem text_round_trip_device :
    parseJID (JID.string {user := text "1",device := 7,server := serverLID}) =
      .ok {user := text "1",device := 7,server := serverLID} ∧
    Agree {user := text "1",device := 7,server := serverLID} :=
  (text_round_trip_iff {user := text "1",device := 7,server := serverLID} (by decide) (by decide)
    (by decide) (by decide) (by decide)).mpr (by decide)

end BaturWhatsApi.JidRoundTrips
