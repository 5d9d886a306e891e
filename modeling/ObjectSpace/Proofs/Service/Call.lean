import ObjectSpace.Proofs.Class.Methods
import ObjectSpace.Proofs.Codec.Arguments
import ObjectSpace.Proofs.Codec.Everywhere
import ObjectSpace.Service.Catalog

/-!
# Caller and callee agree on arguments

A proxy encodes a call by the signature in the registry of a catalog, and the service decodes it by
the method of its operation. Both are one declared method, so the operation gets for each parameter
what the caller supplied for it.
-/

namespace ObjectSpace

open Success

namespace Method

/-- How many arrays and objects of a payload stand around the document of an argument. -/
def envelopeDepth (m : Method) : Nat := if m.shape = .variadic then 2 else 0

/-- What one argument value supplies for a parameter. -/
def given (m : Method) (arg : Value) (i : Nat) (p : Param) : Option Value :=
  if m.shape = .variadic then Arguments.supplied (positionalOf arg) {} i p else p.given arg

/-- The payloads that a proxy builds for a method, with what is supplied for each parameter: out of
one argument value, or of arguments by position and by name. -/
inductive Builds (m : Method) : ByteArray → (Nat → Param → Option Value) → Prop
  | one {arg : Value} {payload : ByteArray} :
    m.encodeCall arg = .ok payload → Builds m payload (m.given arg)
  | many {positional : List Value} {named : Table String Value} {payload : ByteArray} :
    m.shape = .variadic → Arguments.encode m.params positional named = .ok payload →
    Builds m payload (Arguments.supplied positional named)

/-- One value for each parameter, out of what is supplied for it. -/
def Receives (m : Method) (given : Nat → Param → Option Value) (vs : List Value) : Prop :=
  vs.length = m.params.length ∧
    ∀ (i : Nat) (p : Param), m.params[i]? = some p →
      ∃ v, vs[i]? = some v ∧ p.Gets (given i p) v

variable {m : Method} {payload : ByteArray} {given : Nat → Param → Option Value}

theorem receives_of_encode_single {arg : Value} (hm : m.fault? = none)
    (hshape : m.shape = .single ∨ m.shape = .singleWithMeta)
    (hs : ∀ (i : Nat) (p : Param) (a : Value), m.params[i]? = some p → p.given arg = some a →
      p.Sendable 0 a)
    (h : m.encodeCall arg = .ok payload) :
    ∃ vs, m.decodeCall payload = .ok vs ∧ m.Receives (fun _ p => p.given arg) vs := by
  obtain ⟨p, hp, hsingle⟩ := exists_single hm hshape
  have hencode : p.encode arg = .ok payload := by
    unfold encodeCall at h
    rcases hshape with hshape | hshape <;> rw [hshape, hsingle] at h <;> exact h
  have hfirst : m.params[0]? = some p := by
    rw [hp]
    rfl
  obtain ⟨v, hv, hgets⟩ := Param.gets_of_encode (fun b hb => hs 0 p b hfirst hb) hencode
  refine ⟨[v], ?_, ?_, ?_⟩
  · unfold decodeCall
    rcases hshape with hshape | hshape <;> rw [hshape, hsingle] <;> exact map_eq_ok.2 ⟨v, hv, rfl⟩
  · rw [hp]
    rfl
  · intro i q hq
    rw [hp] at hq
    cases i with
    | zero =>
      cases hq
      exact ⟨v, rfl, hgets⟩
    | succ i => simp at hq

theorem receives_of_encode_variadic {positional : List Value} {named : Table String Value}
    (hm : m.fault? = none) (hshape : m.shape = .variadic)
    (hs : Arguments.Written.Sendable m.params positional named)
    (h : Arguments.encode m.params positional named = .ok payload) :
    ∃ vs, m.decodeCall payload = .ok vs ∧ m.Receives (Arguments.supplied positional named) vs := by
  obtain ⟨vs, hvs, hall⟩ := Arguments.gets_of_encode (nodup_params hm) hs h
  refine ⟨vs, ?_, hall⟩
  unfold decodeCall
  rw [hshape]
  exact hvs

/-- Both sides of a call go by the same declaration. -/
theorem receives_of_builds (hm : m.fault? = none) (h : m.Builds payload given)
    (hs : ∀ (i : Nat) (p : Param) (a : Value), m.params[i]? = some p → given i p = some a →
      p.Sendable m.envelopeDepth a) :
    ∃ vs, m.decodeCall payload = .ok vs ∧ m.Receives given vs := by
  unfold envelopeDepth at hs
  cases h with
  | many hshape hencode =>
    rw [if_pos hshape] at hs
    exact receives_of_encode_variadic hm hshape hs hencode
  | @one arg _ hencode =>
    unfold Method.given at hs ⊢
    cases hshape : m.shape with
    | noArguments =>
      have hnil := params_eq_nil hm hshape
      refine ⟨[], ?_, ?_, ?_⟩
      · rw [decodeCall, hshape]
      · rw [hnil]
        rfl
      · intro i p hp
        rw [hnil] at hp
        simp at hp
    | single =>
      simp only [hshape, reduceCtorEq, if_false] at hs ⊢
      exact receives_of_encode_single hm (.inl hshape) hs hencode
    | singleWithMeta =>
      simp only [hshape, reduceCtorEq, if_false] at hs ⊢
      exact receives_of_encode_single hm (.inr hshape) hs hencode
    | variadic =>
      simp only [hshape, if_true] at hs ⊢
      refine receives_of_encode_variadic hm hshape hs ?_
      unfold encodeCall at hencode
      rwa [hshape] at hencode

end Method

namespace Catalog

/-- The registry has the class of the service, whose methods are those of its operations. -/
theorem exists_operation {c : Catalog} {classId name : String} {cls : Class} {m : Method}
    (hc : c.registry.find classId = .ok cls) (hm : cls.method? name = some m) :
    ∃ op, c.operation classId name = .ok op ∧ op.method = m := by
  have hfind : (c.services.get? classId).map Service.schema = some cls := by
    unfold Registry.find registry at hc
    rw [Table.get?_mapValues] at hc
    split at hc
    case h_1 cls' hcls =>
      cases hc
      exact hcls
    case h_2 => cases hc
  obtain ⟨s, hs, rfl⟩ := Option.map_eq_some_iff.1 hfind
  obtain ⟨hmem, hname⟩ := Class.method?_eq_some_iff.1 hm
  obtain ⟨op, hop, hopm⟩ := List.mem_map.1 hmem
  have hnames : (s.plan.operations.map fun op => op.method.name).Nodup := by
    have h := s.schema.nodup_methods
    rwa [show s.schema.declaration.methods = s.plan.operations.map Operation.method from rfl,
      List.map_map] at h
  have hfound : s.operation? name = some op := by
    refine (find?_key_eq_some_iff hnames).2 ⟨hop, ?_⟩
    rw [hopm, hname]
  have hservice : c.service classId = .ok s := by
    unfold service
    rw [hs]
  exact ⟨op, bind_eq_ok.2 ⟨s, hservice, by rw [hfound]; rfl⟩, hopm⟩

/-- Whatever payload a proxy builds by the registry of a catalog, the operation of the catalog takes
it for what the caller supplied. -/
theorem call_arguments_agree {c : Catalog} {classId name : String} {cls : Class} {m : Method}
    (hc : c.registry.find classId = .ok cls) (hm : cls.method? name = some m)
    {payload : ByteArray} {given : Nat → Param → Option Value} (h : m.Builds payload given)
    (hs : ∀ (i : Nat) (p : Param) (a : Value), m.params[i]? = some p → given i p = some a →
      p.Sendable m.envelopeDepth a) :
    ∃ op args, c.operation classId name = .ok op ∧ op.decodeArguments payload = .ok args ∧
      args.names = m.params.map Member.name ∧ m.Receives given args.values := by
  obtain ⟨op, hop, rfl⟩ := exists_operation hc hm
  obtain ⟨vs, hvs, hreceives⟩ :=
    Method.receives_of_builds (Class.fault?_of_method? hm) h hs
  refine ⟨op, ⟨op.method.params.map Member.name, vs⟩, hop, ?_, rfl, hreceives⟩
  exact map_eq_ok.2 ⟨vs, mapError_eq_ok.2 hvs, rfl⟩

/-- The catalog of one service, whose only method does nothing with its arguments. -/
def ofMethod (classId : String) (m : Method)
    (h : (Declaration.mk classId [] [m] []).fault? = none) : Catalog :=
  ⟨Table.empty.insert classId ⟨⟨classId, [], [⟨m, fun _ _ => .done .null⟩], []⟩, h⟩⟩

/-- A method with an amount, a note and a number of times that may be left out. -/
def mix : Method :=
  ⟨"mix", .variadic, [⟨"amount", .int, none⟩, ⟨"note", .str, none⟩, ⟨"times", .int, some (.int 1)⟩],
    .any, none⟩

def mixers : Catalog := ofMethod "Mixer" mix (by decide)

def note : Table String Value := Table.empty.insert "note" (.str "cold")

theorem call_arguments_agree_mix :
    ∃ payload, Arguments.encode mix.params [.str "5"] note = .ok payload ∧
      ∃ op args, mixers.operation "Mixer" "mix" = .ok op ∧ op.decodeArguments payload = .ok args ∧
        args.names = ["amount", "note", "times"] ∧
        mix.Receives (Arguments.supplied [.str "5"] note) args.values := by
  have hc : mixers.registry.find "Mixer" = .ok ⟨⟨"Mixer", [], [mix], []⟩, by decide⟩ := rfl
  have hencode : ∃ payload, Arguments.encode mix.params [.str "5"] note = .ok payload := ⟨_, rfl⟩
  obtain ⟨payload, hpayload⟩ := hencode
  refine ⟨payload, hpayload, call_arguments_agree hc rfl (.many rfl hpayload) ?_⟩
  intro i p a hp ha
  match i with
  | 0 =>
    cases hp
    cases ha
    refine ⟨.of_int, fun v hv => ?_⟩
    obtain rfl : v = .int 5 := Except.ok.inj (hv.symm.trans rfl)
    exact Shape.portable_int (by decide) 5
  | 1 =>
    cases hp
    cases ha
    refine ⟨.of_str, fun v hv => ?_⟩
    obtain rfl : v = .str "cold" := Except.ok.inj (hv.symm.trans rfl)
    exact Shape.portable_str (by decide) "cold"
  | 2 =>
    cases hp
    cases ha
  | i + 3 => cases hp

/-- A method whose argument has keys that differ in the signs of their zeros. -/
def relay : Method := ⟨"relay", .single, [⟨"m", Shape.clash, none⟩], .any, none⟩

def relays : Catalog := ofMethod "Relay" relay (by decide)

theorem exists_clash_document : ∃ j v, Shape.clash.write "m" Shape.clashing = .ok j ∧
    j.depth ≤ Json.Raw.maxDepth ∧ Shape.clash.read "m" j = .ok v ∧
    v.same Shape.clashing = false := by
  have hwritten : (Shape.clash.write "m" Shape.clashing).toOption.any
      (fun j => j.depth ≤ Json.Raw.maxDepth) = true := by decide +kernel
  have hread : ((Shape.clash.write "m" Shape.clashing).toOption.bind fun j =>
      (Shape.clash.read "m" j).toOption).any (fun v => !v.same Shape.clashing) = true := by
    decide +kernel
  cases hj : Shape.clash.write "m" Shape.clashing with
  | error e =>
    rw [hj] at hwritten
    cases hwritten
  | ok j =>
    rw [hj] at hwritten hread
    change ((Shape.clash.read "m" j).toOption.any fun v => !v.same Shape.clashing) = true at hread
    cases hv : Shape.clash.read "m" j with
    | error e =>
      rw [hv] at hread
      cases hread
    | ok v =>
      rw [hv] at hread
      have hsame : (!v.same Shape.clashing) = true := hread
      rw [Bool.not_eq_true'] at hsame
      exact ⟨j, v, rfl, of_decide_eq_true hwritten, hv, hsame⟩

/-- The value is taken as it is, but the operation gets two of its entries exchanged. -/
theorem call_arguments_exchanged :
    ∃ payload op args v, relay.encodeCall Shape.clashing = .ok payload ∧
      relays.operation "Relay" "relay" = .ok op ∧ op.decodeArguments payload = .ok args ∧
      args.values = [v] ∧ Shape.clash.coerce "m" Shape.clashing = .ok Shape.clashing ∧
      v.same Shape.clashing = false := by
  obtain ⟨j, v, hj, hdepth, hv, hsame⟩ := exists_clash_document
  have hcoerce : Shape.clash.coerce "m" Shape.clashing = .ok Shape.clashing := rfl
  have hencode : Shape.clash.encode "m" Shape.clashing = .ok j.text.toUTF8 :=
    map_eq_ok.2 ⟨j, hj, rfl⟩
  have hunique : ∀ j', Shape.Somewhere Shape.write Shape.clash Shape.clashing j' → j = j' :=
    fun j' hj' => Except.ok.inj (hj.symm.trans (Shape.writes_of_write hj' "m"))
  obtain ⟨j', hj', hblank, hdecode⟩ :=
    Shape.decode_eq_read (fun j' hj' => hunique j' hj' ▸ hdepth) hencode
  obtain rfl := hunique j' hj'
  have hsent : relay.encodeCall Shape.clashing = .ok j.text.toUTF8 :=
    bind_eq_ok.2 ⟨Shape.clashing, mapError_eq_ok.2 hcoerce, hencode⟩
  have hreceived : relay.decodeCall j.text.toUTF8 = .ok [v] := by
    refine map_eq_ok.2 ⟨v, ?_, rfl⟩
    rw [Param.decode, hblank]
    exact (hdecode "m").trans (mapError_eq_ok.2 hv)
  have hclass : relays.registry.find "Relay" = .ok ⟨⟨"Relay", [], [relay], []⟩, by decide⟩ := rfl
  have hfound : ∃ op, relays.operation "Relay" "relay" = .ok op ∧ op.method = relay :=
    exists_operation hclass rfl
  obtain ⟨op, hop, hmethod⟩ := hfound
  rw [← hmethod] at hreceived
  exact ⟨_, op, _, v, hsent, hop, map_eq_ok.2 ⟨[v], mapError_eq_ok.2 hreceived, rfl⟩, rfl, hcoerce,
    hsame⟩

end Catalog
end ObjectSpace
