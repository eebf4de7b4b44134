import BaturWhatsApi.Decimal
import BaturWhatsApi.NodeRoundTrip

/-!
# What the encoder accepts

`Encode` of `protocol/binary/encoder.go` fails on a value of a type that its switch does not
have, on a list of 65535 or more entries and on a string or blob of 2^31-1 or more bytes, at
any depth of the tree. The legacy null node is written without a look at what it holds, and so
are the attributes that are left out. Everything else is written.
-/
namespace BaturWhatsApi.Encodability
open ByteStrings TokenDictionary OrderedEntries NodeModel NodeEncoder StringCodec NodeRoundTrip

mutual
/-- A node of which every part that is written can be written. -/
def Node.Encodable (d : Dictionary) : Node → Prop
  | .mk t as c => t = nullTag ∨ (Writable d t ∧
      2*(as.filter fun e => !e.2.dropped).length+1+(if c.isNil then 0 else 1) < 65535 ∧
      EncodableAttrs d as ∧ Value.Encodable d c)
def Value.Encodable (d : Dictionary) : Value → Prop
  | .str s => Writable d s
  | .bytes b => b.length < maxInt32
  | .jid j => Writable d j.user ∧ Writable d j.server
  | .node n => Node.Encodable d n
  | .nodes ns => ns.length < 65535 ∧ EncodableNodes d ns
  | .other _ => False
  | _ => True
def EncodableNodes (d : Dictionary) : List Node → Prop
  | [] => True
  | n::ns => Node.Encodable d n ∧ EncodableNodes d ns
def EncodableAttrs (d : Dictionary) : List (Bytes × Value) → Prop
  | [] => True
  | (k,v)::as => (v.dropped = true ∨ Writable d k ∧ Value.Encodable d v) ∧ EncodableAttrs d as
end

/-! ### Parts of a node -/

theorem then_ok_iff {a b : Write} :
    (∃ w, a.then b = .ok w) ↔ (∃ x, a = .ok x) ∧ ∃ y, b = .ok y := by
  constructor
  · rintro ⟨w,hw⟩
    obtain ⟨x,y,hx,hy,-⟩ := Write.then_eq_ok.mp hw
    exact ⟨⟨x,hx⟩,y,hy⟩
  · rintro ⟨⟨x,rfl⟩,y,rfl⟩
    exact ⟨x++y,rfl⟩

theorem ok_exists (b : Bytes) : (∃ w, (.ok b : Write) = .ok w) ↔ True :=
  iff_true_intro ⟨b,rfl⟩

theorem writeListStart_ok_iff {size : ℕ} : (∃ w, writeListStart size = .ok w) ↔ size < 65535 := by
  unfold writeListStart
  split_ifs with h₀ h₁ h₂
  · exact ⟨fun _ => by omega,fun _ => ⟨_,rfl⟩⟩
  · exact ⟨fun _ => by omega,fun _ => ⟨_,rfl⟩⟩
  · exact ⟨fun _ => h₂,fun _ => ⟨_,rfl⟩⟩
  · exact ⟨fun ⟨_,h⟩ => (nomatch h),fun h => (h₂ h).elim⟩

theorem writable_of_short {d : Dictionary} {s : Bytes} (h : s.length < maxInt32) : Writable d s :=
  .inr (.inr h)

theorem writeJID_ok_iff {d : Dictionary} {j : JID} :
    (∃ w, writeJID d j = .ok w) ↔ Writable d j.user ∧ Writable d j.server := by
  have hshort : ∀ s : Bytes, s.length ≤ 14 → Writable d s := fun s h =>
    writable_of_short (lt_of_le_of_lt h (by decide))
  unfold writeJID
  split_ifs with h₁ h₂ h₃ h₄
  · have hs : Writable d j.server := by
      simp only [JID.isADJIDEncodable,JID.onDeviceServer,Bool.and_eq_true,Bool.or_eq_true,
        decide_eq_true_eq] at h₁
      rcases h₁.1 with ((h | h) | h) | h
      all_goals
        rw [h]
        exact hshort _ (by decide)
    simp only [then_ok_iff,ok_exists,true_and,writeString_ok_iff,hs,and_true]
  · simp only [then_ok_iff,ok_exists,true_and,writeString_ok_iff]
  · simp only [then_ok_iff,ok_exists,true_and,writeString_ok_iff]
  · have hu : Writable d j.user := by
      rw [h₄]
      exact hshort _ (by decide)
    simp only [then_ok_iff,ok_exists,true_and,writeString_ok_iff,hu]
  · simp only [then_ok_iff,ok_exists,true_and,writeString_ok_iff]

theorem countableAttrs_length (d : Dictionary) (as : List (Bytes × Value)) :
    (countableAttrs d as).length = (as.filter fun e => !e.2.dropped).length := by
  induction as with
  | nil => rw [countableAttrs]; rfl
  | cons e as ih =>
      obtain ⟨k,v⟩ := e
      rw [countableAttrs,List.filter_cons]
      cases h : v.dropped <;> simp [ih]

/-! ### Numbers and booleans are short -/

theorem writable_uint (d : Dictionary) {n : ℕ} (h : n < 2^64) : Writable d (formatUint n) := by
  have hlen := Decimal.length_text_le (n := n) 19 (h.trans (by decide))
  exact writable_of_short (lt_of_le_of_lt hlen (by decide))

theorem formatInt_cases (i : ℤ) : formatInt i = formatUint i.natAbs ∨
    formatInt i = text "-"++formatUint i.natAbs := by
  cases i with
  | ofNat n => exact .inl rfl
  | negSucc n =>
      refine .inr ?_
      change text ("-"++toString (n+1)) = _
      rw [text,String.toByteArray_append]
      simp [text,formatUint]

theorem writable_int (d : Dictionary) {i : ℤ} (h : i.natAbs < 2^64) : Writable d (formatInt i) := by
  have hlen := Decimal.length_text_le (n := i.natAbs) 19 (h.trans (by decide))
  rcases formatInt_cases i with hi | hi
  · rw [hi]
    exact writable_uint d h
  · rw [hi]
    refine writable_of_short ?_
    rw [List.length_append]
    exact lt_of_le_of_lt (Nat.add_le_add_left hlen 1) (by decide)

theorem writable_scalar (d : Dictionary) {v : Value} {s : Bytes} (h : v.scalar = some s) :
    Writable d s := by
  cases v with
  | bool b =>
      cases h
      exact writable_of_short (by cases b <;> decide)
  | int i | int64 i =>
      cases h
      exact writable_int d (by have := i.toInt_lt; have := i.le_toInt; omega)
  | int32 i =>
      cases h
      exact writable_int d (by have := i.toInt_lt; have := i.le_toInt; omega)
  | uint n | uint64 n =>
      cases h
      exact writable_uint d n.toNat_lt
  | uint32 n =>
      cases h
      exact writable_uint d (n.toNat_lt.trans (by decide))
  | _ => cases h

theorem write_scalar (d : Dictionary) {v : Value} {s : Bytes} (h : v.scalar = some s) :
    ∃ w, write d v = .ok w := by
  rw [(scalar_write (d := d) h).1]
  exact writeString_ok_iff.mpr (writable_scalar d h)

/-! ### Every tree -/

theorem writeAll_ok_iff {es : List (Bytes × Write)} :
    (∃ w, writeAll es = .ok w) ↔ ∀ e ∈ es, ∃ w, e.2 = .ok w := by
  induction es with
  | nil => simp [writeAll]
  | cons e es ih => rw [writeAll,then_ok_iff,ih,List.forall_mem_cons]

/-- The order of the attributes does not matter. -/
theorem writeAll_sorted_ok_iff {es : List (Bytes × Write)} :
    (∃ w, writeAll (sortByKey es) = .ok w) ↔ ∃ w, writeAll es = .ok w := by
  rw [writeAll_ok_iff,writeAll_ok_iff,sortByKey]
  simp only [List.mem_insertionSort]

mutual
theorem writeNode_ok_iff (d : Dictionary) : ∀ n : Node,
    (∃ w, writeNode d n = .ok w) ↔ Node.Encodable d n
  | .mk t as c => by
      rw [writeNode,Node.Encodable]
      by_cases ht : t = nullTag
      · rw [if_pos ht]
        exact ⟨fun _ => .inl ht,fun _ => ⟨_,rfl⟩⟩
      · rw [if_neg ht]
        have hcont : (∃ w, (if c.isNil then .ok [] else write d c) = Except.ok w) ↔
            Value.Encodable d c := by
          cases hn : c.isNil with
          | true =>
              obtain rfl : c = .nil := by cases c <;> first | rfl | cases hn
              simp [Value.Encodable]
          | false => exact write_ok_iff d c
        have hlen : (sortByKey (countableAttrs d as)).length =
            (as.filter fun e => !e.2.dropped).length := by
          rw [sortByKey,List.length_insertionSort,countableAttrs_length]
        simp only [then_ok_iff,writeListStart_ok_iff,writeString_ok_iff,hlen,
          writeAll_sorted_ok_iff,writeAttrs_ok_iff d as,hcont]
        tauto
theorem write_ok_iff (d : Dictionary) : ∀ v : Value,
    (∃ w, write d v = .ok w) ↔ Value.Encodable d v
  | .nil => by simp [write,Value.Encodable]
  | .str s => by rw [write,Value.Encodable,writeString_ok_iff]
  | .bytes b => by rw [write,Value.Encodable,writeBytes_ok_iff]
  | .jid j => by rw [write,Value.Encodable,writeJID_ok_iff]
  | .node n => by rw [write,Value.Encodable,writeNode_ok_iff d n]
  | .nodes ns => by
      rw [write,Value.Encodable,then_ok_iff,writeListStart_ok_iff,writeNodes_ok_iff d ns]
  | .other type => by simp [write,Value.Encodable]
  | .bool b => iff_of_true (write_scalar d (v := .bool b) rfl) trivial
  | .int i => iff_of_true (write_scalar d (v := .int i) rfl) trivial
  | .int32 i => iff_of_true (write_scalar d (v := .int32 i) rfl) trivial
  | .int64 i => iff_of_true (write_scalar d (v := .int64 i) rfl) trivial
  | .uint n => iff_of_true (write_scalar d (v := .uint n) rfl) trivial
  | .uint32 n => iff_of_true (write_scalar d (v := .uint32 n) rfl) trivial
  | .uint64 n => iff_of_true (write_scalar d (v := .uint64 n) rfl) trivial
theorem writeNodes_ok_iff (d : Dictionary) : ∀ ns : List Node,
    (∃ w, writeNodes d ns = .ok w) ↔ EncodableNodes d ns
  | [] => by simp [writeNodes,EncodableNodes]
  | n::ns => by
      rw [writeNodes,EncodableNodes,then_ok_iff,writeNode_ok_iff d n,
        writeNodes_ok_iff d ns]
theorem writeAttrs_ok_iff (d : Dictionary) : ∀ as : List (Bytes × Value),
    (∃ w, writeAll (countableAttrs d as) = .ok w) ↔ EncodableAttrs d as
  | [] => by simp [countableAttrs,writeAll,EncodableAttrs]
  | (k,v)::as => by
      rw [countableAttrs,EncodableAttrs]
      split_ifs with h
      · rw [writeAttrs_ok_iff d as]
        simp [h]
      · rw [writeAll,then_ok_iff,then_ok_iff,writeString_ok_iff,write_ok_iff d v,
          writeAttrs_ok_iff d as]
        simp [h]
end

theorem encode_ok_iff (d : Dictionary) (n : Node) :
    (∃ w, encode n d = .ok w) ↔ Node.Encodable d n := writeNode_ok_iff d n

theorem encode_error_iff (d : Dictionary) (n : Node) :
    (∃ e, encode n d = .error e) ↔ ¬Node.Encodable d n := by
  rw [← encode_ok_iff]
  cases encode n d with
  | error e => simp
  | ok w => simp

end BaturWhatsApi.Encodability
