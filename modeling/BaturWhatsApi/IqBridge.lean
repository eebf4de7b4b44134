import BaturWhatsApi.Encodability
import BaturWhatsApi.JsonValues

/-!
# The bridge from HTTP to nodes

`hSessionIQ` of `apiserver/apiserver.go` builds a node from a JSON body, with the children that
`UnmarshalJSON` of `protocol/binary/node.go` reads. An attribute takes whatever JSON has, and the
encoder knows neither numbers nor arrays and objects. A body within its limit can also have more
attributes or children than a list of the encoder.
-/
namespace BaturWhatsApi.IqBridge
open ByteStrings TokenDictionary OrderedEntries NodeModel NodeEncoder StringCodec
  Encodability JsonValues Relation

/-! ### Reading nodes -/

/-- A JSON value in an `any`, as the encoder sees it. -/
def ofAny : Json → Value
  | .null => .nil
  | .bool b => .bool b
  | .num _ => .other "float64"
  | .str s => .str s
  | .arr _ => .other "[]interface \x7b\x7d"
  | .obj _ => .other "map[string]interface \x7b\x7d"

def ofAttrs (attrs : List (Bytes × Json)) : List (Bytes × Value) :=
  attrs.map fun e => (e.1,ofAny e.2)

structure NodeJSON where
  tag : Bytes := []
  attrs : List (Bytes × Json) := []
  content : Option Json := none

def NodeJSON.member (raw : NodeJSON) (e : Bytes × Json) : Option NodeJSON :=
  if named "tag" e.1 then (intoString raw.tag e.2).map fun t => {raw with tag := t}
  else if named "attrs" e.1 then (intoMap raw.attrs e.2).map fun as => {raw with attrs := as}
  else if named "content" e.1 then some {raw with content := some e.2}
  else some raw

def nodeJSON : Json → Option NodeJSON := intoRecord NodeJSON.member {}

theorem sizeOf_content {j c : Json} {raw : NodeJSON} (h : nodeJSON j = some raw)
    (hc : raw.content = some c) : sizeOf c < sizeOf j := by
  have hinv : ∀ c, raw.content = some c → sizeOf c < sizeOf j := by
    refine intoRecord_invariant (P := fun raw => ∀ c, raw.content = some c → sizeOf c < sizeOf j)
      (fun c hc => by cases hc) ?_ h
    intro raw e raw' hlt hraw hstep c hc
    rw [NodeJSON.member] at hstep
    split_ifs at hstep
    · obtain ⟨t,-,rfl⟩ := Option.map_eq_some_iff.mp hstep
      exact hraw c hc
    · obtain ⟨as,-,rfl⟩ := Option.map_eq_some_iff.mp hstep
      exact hraw c hc
    · cases hstep
      cases hc
      exact hlt
    · cases hstep
      exact hraw c hc
  exact hinv c hc

mutual
def unmarshalJSON (j : Json) : Option Node :=
  match _h : nodeJSON j with
  | none => none
  | some raw =>
      match _hc : raw.content with
      | none => some (.mk raw.tag (ofAttrs raw.attrs) .nil)
      | some (.arr kids) =>
          (unmarshalNodes kids).map fun kids => .mk raw.tag (ofAttrs raw.attrs) (.nodes kids)
      | some (.str s) => some (.mk raw.tag (ofAttrs raw.attrs) (.str s))
      | some _ => none
termination_by sizeOf j
decreasing_by
  have hlt := sizeOf_content _h _hc
  rw [Json.arr.sizeOf_spec] at hlt
  omega
def unmarshalNodes (js : List Json) : Option (List Node) :=
  match js with
  | [] => some []
  | j::js => do
      let n ← unmarshalJSON j
      let ns ← unmarshalNodes js
      pure (n::ns)
termination_by sizeOf js
end

/-! ### The handler -/

structure IqRequest where
  tag : Bytes := []
  attrs : List (Bytes × Json) := []
  content : List Json := []
  timeout : Bytes := []

def IqRequest.member (req : IqRequest) (e : Bytes × Json) : Option IqRequest :=
  if named "tag" e.1 then (intoString req.tag e.2).map fun t => {req with tag := t}
  else if named "attrs" e.1 then (intoMap req.attrs e.2).map fun as => {req with attrs := as}
  else if named "content" e.1 then (intoList e.2).map fun js => {req with content := js}
  else if named "timeout" e.1 then (intoString req.timeout e.2).map fun t => {req with timeout := t}
  else some req

def iqRequest : Json → Option IqRequest := intoRecord IqRequest.member {}

/-- A body of a request. -/
structure Body where
  /-- The number of bytes to the end of the first value. -/
  length : ℕ
  /-- There is none where the text is not JSON. -/
  value : Option Json

/-- The answers that refuse a request. -/
inductive Refusal where
  | tooLarge
  | badRequest
  | tagRequired
  | badContent
  | badTimeout
deriving DecidableEq, Repr

def bodyLimit (maxBodyBytes : ℤ) : ℤ := if 0 < maxBodyBytes then maxBodyBytes else 2^20

/-- The node that is handed on; `parseDuration` says which timeouts are durations. -/
def hSessionIQ (maxBodyBytes : ℤ) (parseDuration : Bytes → Bool) (body : Body) :
    Except Refusal Node :=
  if bodyLimit maxBodyBytes < body.length then .error .tooLarge
  else
    match body.value.bind iqRequest with
    | none => .error .badRequest
    | some req =>
        if req.tag = [] then .error .tagRequired
        else
          match unmarshalNodes req.content with
          | none => .error .badContent
          | some kids =>
              if req.timeout ≠ [] ∧ parseDuration req.timeout = false then .error .badTimeout
              else
                .ok (.mk req.tag (ofAttrs req.attrs) (if kids.isEmpty then .nil else .nodes kids))

/-! ### What can be encoded -/

def dropped : Json → Bool
  | .null => true
  | .str s => s.isEmpty
  | _ => false

/-- An attribute value that the encoder has a case for. -/
def Plain (d : Dictionary) : Json → Prop
  | .null => True
  | .bool _ => True
  | .str s => Writable d s
  | _ => False

/-- What is written of a node itself, with `content` entries for what it holds. -/
structure HeadFits (d : Dictionary) (tag : Bytes) (attrs : List (Bytes × Json)) (content : ℕ) :
    Prop where
  tag : Writable d tag
  size : 2*(attrs.filter fun e => !dropped e.2).length+1+content < 65535
  attrs : ∀ e ∈ attrs, dropped e.2 = true ∨ Writable d e.1 ∧ Plain d e.2

def ContentFits (d : Dictionary) : Option Json → Prop
  | some (.str s) => Writable d s
  | some (.arr js) => js.length < 65535
  | _ => True

def NodeJSON.Fits (d : Dictionary) (raw : NodeJSON) : Prop :=
  raw.tag = nullTag ∨
    HeadFits d raw.tag raw.attrs (if raw.content.isNone then 0 else 1) ∧ ContentFits d raw.content

/-- The elements of a list in the content. -/
def elements : Option Json → List Json
  | some (.arr js) => js
  | _ => []

/-- The second value is a child of the first, which is not the null node. -/
def Kid (j e : Json) : Prop :=
  ∃ raw, nodeJSON j = some raw ∧ raw.tag ≠ nullTag ∧ e ∈ elements raw.content

/-- Every node fits that is written for the value. -/
def TreeFits (d : Dictionary) (j : Json) : Prop :=
  ∀ e, ReflTransGen Kid j e → ∀ raw, nodeJSON e = some raw → raw.Fits d

def IqRequest.Fits (d : Dictionary) (req : IqRequest) : Prop :=
  req.tag = nullTag ∨
    HeadFits d req.tag req.attrs (if req.content.isEmpty then 0 else 1) ∧
    req.content.length < 65535 ∧ ∀ j ∈ req.content, TreeFits d j

theorem sizeOf_element {j e : Json} {raw : NodeJSON} (h : nodeJSON j = some raw)
    (he : e ∈ elements raw.content) : sizeOf e < sizeOf j := by
  unfold elements at he
  split at he
  · rename_i js hc
    have hlt := sizeOf_content h hc
    have hmem := List.sizeOf_lt_of_mem he
    rw [Json.arr.sizeOf_spec] at hlt
    omega
  · cases he

theorem ofAny_dropped (j : Json) : (ofAny j).dropped = dropped j := by
  cases j <;> rfl

theorem ofAny_encodable (d : Dictionary) (j : Json) : Value.Encodable d (ofAny j) ↔ Plain d j := by
  cases j <;> simp only [ofAny,Value.Encodable,Plain]

theorem ofAttrs_filter_length (as : List (Bytes × Json)) :
    ((ofAttrs as).filter fun e => !e.2.dropped).length =
      (as.filter fun e => !dropped e.2).length := by
  rw [ofAttrs,List.filter_map,List.length_map]
  congr 2
  funext e
  exact congrArg _ (ofAny_dropped e.2)

theorem ofAttrs_encodable (d : Dictionary) (as : List (Bytes × Json)) :
    EncodableAttrs d (ofAttrs as) ↔
      ∀ e ∈ as, dropped e.2 = true ∨ Writable d e.1 ∧ Plain d e.2 := by
  induction as with
  | nil => simp [ofAttrs,EncodableAttrs]
  | cons e as ih =>
      rw [ofAttrs,List.map_cons,EncodableAttrs,ofAny_dropped,ofAny_encodable,List.forall_mem_cons]
      exact and_congr_right fun _ => ih

/-- A node of the bridge. -/
theorem encodable_mk (d : Dictionary) (t : Bytes) (as : List (Bytes × Json)) (c : Value) :
    Node.Encodable d (.mk t (ofAttrs as) c) ↔
      t = nullTag ∨ HeadFits d t as (if c.isNil then 0 else 1) ∧ Value.Encodable d c := by
  rw [Node.Encodable,ofAttrs_filter_length,ofAttrs_encodable]
  refine or_congr_right ⟨?_,?_⟩
  · intro ⟨htag,hsize,hattrs,hcontent⟩
    exact ⟨⟨htag,hsize,hattrs⟩,hcontent⟩
  · intro ⟨hhead,hcontent⟩
    exact ⟨hhead.tag,hhead.size,hhead.attrs,hcontent⟩

/-- A value fits when its own node does, and its children do. -/
theorem treeFits_iff (d : Dictionary) {j : Json} {raw : NodeJSON} (h : nodeJSON j = some raw) :
    TreeFits d j ↔ raw.Fits d ∧ ∀ e, Kid j e → TreeFits d e := by
  constructor
  · intro hfits
    refine ⟨hfits j .refl raw h,fun e he e' hreach => hfits e' (.head he hreach)⟩
  · intro ⟨hraw,hkids⟩ e hreach
    rcases ReflTransGen.cases_head hreach with rfl | ⟨e',he',hreach⟩
    · intro raw' h'
      cases h.symm.trans h'
      exact hraw
    · exact hkids e' he' e hreach

theorem unmarshalNodes_encodable (d : Dictionary) {js : List Json} {ns : List Node}
    (hkids : ∀ j ∈ js, ∀ n, unmarshalJSON j = some n → (Node.Encodable d n ↔ TreeFits d j))
    (h : unmarshalNodes js = some ns) :
    ns.length = js.length ∧ (EncodableNodes d ns ↔ ∀ j ∈ js, TreeFits d j) := by
  induction js generalizing ns with
  | nil =>
      rw [unmarshalNodes] at h
      cases h
      simp [EncodableNodes]
  | cons j js ih =>
      rw [unmarshalNodes] at h
      obtain ⟨n,hn,h⟩ := Option.bind_eq_some_iff.mp h
      obtain ⟨ns',hns,h⟩ := Option.bind_eq_some_iff.mp h
      cases h
      obtain ⟨hlen,henc⟩ := ih (fun j hj => hkids j (List.mem_cons_of_mem _ hj)) hns
      rw [List.length_cons,List.length_cons,EncodableNodes,henc,List.forall_mem_cons,
        hkids j List.mem_cons_self n hn,hlen]
      exact ⟨rfl,Iff.rfl⟩

/-- What is made of the content of a node. -/
def readContent : Option Json → Option Value
  | none => some .nil
  | some (.arr js) => (unmarshalNodes js).map .nodes
  | some (.str s) => some (.str s)
  | some _ => none

theorem unmarshalJSON_eq_some {j : Json} {n : Node} : unmarshalJSON j = some n ↔
    ∃ raw c, nodeJSON j = some raw ∧ readContent raw.content = some c ∧
      .mk raw.tag (ofAttrs raw.attrs) c = n := by
  rw [unmarshalJSON]
  split
  · rename_i hraw
    simp [hraw]
  · rename_i raw hraw
    split
    · rename_i hc
      simp [hraw,hc,readContent]
    · rename_i js hc
      simp [hraw,hc,readContent]
    · rename_i s hc
      simp [hraw,hc,readContent]
    · rename_i other harr hstr hc
      have hnone : readContent (some other) = none := by
        cases other with
        | arr js => exact absurd rfl (harr js)
        | str s => exact absurd rfl (hstr s)
        | _ => rfl
      simp [hraw,hc,hnone]

theorem readContent_encodable (d : Dictionary) {content : Option Json} {c : Value}
    (hkids : ∀ j ∈ elements content, ∀ n, unmarshalJSON j = some n →
      (Node.Encodable d n ↔ TreeFits d j)) (h : readContent content = some c) :
    c.isNil = content.isNone ∧
      (Value.Encodable d c ↔ ContentFits d content ∧ ∀ j ∈ elements content, TreeFits d j) := by
  revert h
  fun_cases readContent content <;> intro h
  · cases h
    simp [Value.isNil,Value.Encodable,ContentFits,elements]
  · obtain ⟨ns,hns,rfl⟩ := Option.map_eq_some_iff.mp h
    obtain ⟨hlen,henc⟩ := unmarshalNodes_encodable d hkids hns
    rw [Value.Encodable,ContentFits,elements,hlen,henc]
    exact ⟨rfl,Iff.rfl⟩
  · cases h
    simp [Value.isNil,Value.Encodable,ContentFits,elements]
  · cases h

theorem unmarshalJSON_encodable (d : Dictionary) {j : Json} {n : Node}
    (h : unmarshalJSON j = some n) : Node.Encodable d n ↔ TreeFits d j := by
  induction hsize : sizeOf j using Nat.strong_induction_on generalizing j n with
  | _ size ih =>
      obtain ⟨raw,c,hraw,hreads,rfl⟩ := unmarshalJSON_eq_some.mp h
      have hkids : ∀ e ∈ elements raw.content, ∀ n, unmarshalJSON e = some n →
          (Node.Encodable d n ↔ TreeFits d e) := by
        intro e he n hn
        exact ih _ (hsize ▸ sizeOf_element hraw he) hn rfl
      obtain ⟨hnil,hcontent⟩ := readContent_encodable d hkids hreads
      have hkid : ∀ e, Kid j e ↔ raw.tag ≠ nullTag ∧ e ∈ elements raw.content := by
        intro e
        simp only [Kid,hraw,Option.some.injEq,exists_eq_left']
      simp only [encodable_mk,treeFits_iff d hraw,NodeJSON.Fits,hnil,hcontent,hkid]
      by_cases htag : raw.tag = nullTag
      · simp [htag]
      · simp [htag,and_assoc]

/-- What is accepted, and the node that is made of it. -/
theorem hSessionIQ_eq_ok {maxBodyBytes : ℤ} {parseDuration : Bytes → Bool} {body : Body}
    {n : Node} : hSessionIQ maxBodyBytes parseDuration body = .ok n ↔
      body.length ≤ bodyLimit maxBodyBytes ∧ ∃ req kids,
        body.value.bind iqRequest = some req ∧ req.tag ≠ [] ∧
        unmarshalNodes req.content = some kids ∧
        (req.timeout = [] ∨ parseDuration req.timeout = true) ∧
        .mk req.tag (ofAttrs req.attrs) (if kids.isEmpty then .nil else .nodes kids) = n := by
  rw [hSessionIQ,← not_lt]
  split_ifs with hlen
  · simp [hlen]
  cases hreq : body.value.bind iqRequest with
  | none => simp
  | some req =>
      by_cases htag : req.tag = []
      · simp [htag]
      cases hkids : unmarshalNodes req.content with
      | none => simp [htag,hkids]
      | some kids =>
          by_cases htimeout : req.timeout ≠ [] ∧ parseDuration req.timeout = false
          · simp [htag,hkids,htimeout]
          · have hdur : req.timeout = [] ∨ parseDuration req.timeout = true := by
              rwa [not_and_or,not_not,Bool.not_eq_false] at htimeout
            simp [htag,hkids,hlen,hdur,htimeout]

/-- The node of an accepted body can be encoded exactly when every node of the body fits. -/
theorem accepted_encodes_iff (d : Dictionary) (maxBodyBytes : ℤ) (parseDuration : Bytes → Bool)
    (body : Body) (n : Node) (h : hSessionIQ maxBodyBytes parseDuration body = .ok n) :
    (∃ w, encode n d = .ok w) ↔ ∃ req, body.value.bind iqRequest = some req ∧ req.Fits d := by
  obtain ⟨-,req,kids,hreq,-,hkids,-,rfl⟩ := hSessionIQ_eq_ok.mp h
  obtain ⟨hlen,henc⟩ :=
    unmarshalNodes_encodable d (fun _ _ _ hn => unmarshalJSON_encodable d hn) hkids
  simp only [encode_ok_iff,encodable_mk,hreq,Option.some.injEq,exists_eq_left',IqRequest.Fits]
  refine or_congr_right ?_
  cases kids with
  | nil =>
      obtain hcontent : req.content = [] := List.length_eq_zero_iff.mp hlen.symm
      simp [hcontent,Value.isNil,Value.Encodable]
  | cons k ks =>
      have hcontent : req.content ≠ [] := fun hnil => by simp [hnil] at hlen
      simp only [List.isEmpty_cons,Bool.false_eq_true,if_false,Value.isNil,Value.Encodable,hlen,
        henc,List.isEmpty_iff,hcontent]

/-- A request with a number among its attributes. -/
def numbered : Body where
  length := 28
  value := some (.obj [(text "tag",.str (text "iq")),
    (text "attrs",.obj [(text "n",.num (.ofInt 1))])])

/-- `{"tag":"iq","attrs":{"n":1}}` is accepted, and its node cannot be encoded. -/
theorem numbered_not_encoded :
    hSessionIQ 0 (fun _ => true) numbered =
      .ok (.mk (text "iq") [(text "n",.other "float64")] .nil) ∧
    ∀ d, ¬∃ w, encode (.mk (text "iq") [(text "n",.other "float64")] .nil) d = .ok w := by
  constructor
  · have hkids : unmarshalNodes [] = some [] := by rw [unmarshalNodes]
    have hfinite : finiteMembers [(text "n",.num (.ofInt 1))] = true := by decide +kernel
    have hreq : numbered.value.bind iqRequest =
        some ⟨text "iq",[(text "n",.num (.ofInt 1))],[],[]⟩ := by
      have hnames : named "tag" (text "tag") = true ∧ named "tag" (text "attrs") = false ∧
          named "attrs" (text "attrs") = true := by decide
      simp [numbered,iqRequest,intoRecord,IqRequest.member,intoString,intoMap,hnames,hfinite,put]
    exact hSessionIQ_eq_ok.mpr ⟨by decide,_,[],hreq,by decide,hkids,.inl rfl,rfl⟩
  · intro d
    have htag : text "iq" ≠ nullTag := by decide
    rw [encode_ok_iff]
    simp [Node.Encodable,EncodableAttrs,Value.Encodable,Value.dropped,htag]

def pinging : Json :=
  .obj [(text "tag",.str (text "ping")),(text "attrs",.obj [(text "n",.str (text "1"))])]

/-- `{"tag":"iq","content":[{"tag":"ping","attrs":{"n":"1"}}]}`. -/
def nested : Body where
  length := 57
  value := some (.obj [(text "tag",.str (text "iq")),(text "content",.arr [pinging])])

def pinged : Node := .mk (text "ping") [(text "n",.str (text "1"))] .nil

theorem pinging_fits (d : Dictionary) : TreeFits d pinging := by
  have hraw : nodeJSON pinging = some ⟨text "ping",[(text "n",.str (text "1"))],none⟩ := rfl
  refine (treeFits_iff d hraw).mpr ⟨.inr ⟨⟨?_,by decide,?_⟩,trivial⟩,?_⟩
  · exact writable_of_short (by decide)
  · intro e he
    cases List.mem_singleton.mp he
    exact .inr ⟨writable_of_short (by decide),writable_of_short (by decide)⟩
  · intro e ⟨raw,h,_,he⟩
    cases hraw.symm.trans h
    cases he

theorem nested_encoded :
    hSessionIQ 0 (fun _ => true) nested = .ok (.mk (text "iq") [] (.nodes [pinged])) ∧
    ∀ d, ∃ w, encode (.mk (text "iq") [] (.nodes [pinged])) d = .ok w := by
  have hping : unmarshalJSON pinging = some pinged :=
    unmarshalJSON_eq_some.mpr ⟨_,.nil,rfl,rfl,rfl⟩
  have hkids : unmarshalNodes [pinging] = some [pinged] := by
    simp [unmarshalNodes,hping]
  have haccept : hSessionIQ 0 (fun _ => true) nested =
      .ok (.mk (text "iq") [] (.nodes [pinged])) :=
    hSessionIQ_eq_ok.mpr ⟨by decide,_,_,rfl,by decide,hkids,.inl rfl,rfl⟩
  refine ⟨haccept,fun d => (accepted_encodes_iff d 0 _ nested _ haccept).mpr ⟨_,rfl,.inr ?_⟩⟩
  refine ⟨⟨writable_of_short (by decide),by decide,fun e he => by cases he⟩,by decide,?_⟩
  intro j hj
  cases List.mem_singleton.mp hj
  exact pinging_fits d

end BaturWhatsApi.IqBridge
