import ObjectSpace.Proofs.Codec.Conforming
import ObjectSpace.Proofs.Codec.Payload
import ObjectSpace.Service.Operation

/-!
# The arguments of a body

The body of a method is called with what was decoded for the parameters of the method, and a class
without a fault has checked the parameters of all its methods.
-/

namespace ObjectSpace

open Success

namespace Operation

/-- Whenever arguments are decoded for a method of a class that was built, they are one value for
each declared parameter, in order, and each value has the shape of its parameter. -/
theorem decoded_arguments_conform {d : Declaration} {cls : Class} (hd : d.build = .ok cls)
    {op : Operation} (hop : op.method ∈ d.methods)
    (hs : ∀ p ∈ op.method.params, p.shape.Conforming) {payload : ByteArray} {args : Arguments}
    (h : op.decodeArguments payload = .ok args) :
    args.names = op.method.params.map Member.name ∧
      List.Forall₂ (fun p v => p.shape.accepts v = true) op.method.params args.values ∧
      (op.method.shape = .noArguments → args.values = []) := by
  obtain rfl := Declaration.build_eq_ok.1 hd
  have hfault : op.method.fault? = none := Class.fault?_of_mem hop
  obtain ⟨vs, hvs, rfl⟩ := map_eq_ok.1 h
  have haccepted := Method.accepts_of_decodeCall hfault hs (mapError_eq_ok.1 hvs)
  refine ⟨rfl, haccepted, fun hnone => ?_⟩
  rw [Method.params_eq_nil hfault hnone] at haccepted
  exact List.forall₂_nil_left_iff.1 haccepted

/-! ## A method that takes a record -/

/-- How far to go, in one direction unless the caller says otherwise. -/
def stride : Shape := .record "Stride" [⟨"x", .int, some (.int 1)⟩, ⟨"y", .int, some (.int 0)⟩]

theorem conforming_stride : stride.Conforming := by
  refine .of_record ⟨by decide, List.forall_mem_cons.2 ⟨?_, List.forall_mem_singleton.2 ?_⟩⟩ ?_
  · rintro v hv
    cases hv
    rfl
  · rintro v hv
    cases hv
    rfl
  · exact List.forall_mem_cons.2 ⟨.of_int, List.forall_mem_singleton.2 .of_int⟩

/-- A method that does nothing with its argument. -/
def taking (s : Shape) : Operation :=
  ⟨⟨"move", .single, [⟨"by", s, none⟩], .any, none⟩, fun _ _ => .done .null⟩

def mover (s : Shape) : Declaration := ⟨"Mover", [], [(taking s).method], []⟩

theorem fault?_mover (s : Shape) : (mover s).fault? = none := rfl

/-- What the method is called with for a document. -/
theorem decodeArguments_taking {s : Shape} {j : Json} {v : Value} (hj : j.Printable)
    (hd : j.depth ≤ Json.Raw.maxDepth) (h : s.read "by" j = .ok v) :
    (taking s).decodeArguments j.text.toUTF8 = .ok ⟨["by"], [v]⟩ := by
  have hdecode : Param.decode ⟨"by", s, none⟩ j.text.toUTF8 = .ok v := by
    rw [Param.decode, Json.isBlank_text hj, if_neg (by decide), Shape.decode_text hj hd]
    exact mapError_eq_ok.2 h
  have hcall : (taking s).method.decodeCall j.text.toUTF8 = .ok [v] :=
    map_eq_ok.2 ⟨v, hdecode, rfl⟩
  exact map_eq_ok.2 ⟨[v], mapError_eq_ok.2 hcall, rfl⟩

theorem decoded_arguments_conform_stride :
    ∃ args, (taking stride).decodeArguments (Json.obj [("x", .int 5)]).text.toUTF8 = .ok args ∧
      args.names = ["by"] ∧
      List.Forall₂ (fun p v => p.shape.accepts v = true) (taking stride).method.params
        args.values := by
  have hj : (Json.obj [("x", .int 5)]).Printable :=
    .obj (List.pairwise_singleton _ _) (List.forall_mem_singleton.2 (.int rfl))
  have hdecode := decodeArguments_taking hj (by decide)
    (show stride.read "by" (.obj [("x", .int 5)]) =
      .ok (.record [("x", .int 5), ("y", .int 0)]) from rfl)
  have hbuild : (mover stride).build = .ok ⟨mover stride, fault?_mover stride⟩ :=
    Declaration.build_eq_ok.2 rfl
  obtain ⟨hnames, haccepted, _⟩ := decoded_arguments_conform hbuild List.mem_cons_self
    (List.forall_mem_singleton.2 conforming_stride) hdecode
  exact ⟨_, hdecode, hnames, haccepted⟩

/-- A record with a default that is not of its member's shape. -/
def astray : Shape := .record "Stride" [⟨"x", .int, some (.str "far")⟩]

/-- The class is built all the same, and the body gets the default where the payload leaves the
member out. -/
theorem decoded_argument_malformed :
    ∃ cls args, (mover astray).build = .ok cls ∧
      (taking astray).decodeArguments (Json.obj []).text.toUTF8 = .ok args ∧
      args.values = [.record [("x", .str "far")]] ∧
      astray.accepts (.record [("x", .str "far")]) = false := by
  have hj : (Json.obj []).Printable := .obj .nil (by simp)
  have hdecode := decodeArguments_taking hj (by decide)
    (show astray.read "by" (.obj []) = .ok (.record [("x", .str "far")]) from rfl)
  exact ⟨⟨mover astray, fault?_mover astray⟩, _, Declaration.build_eq_ok.2 rfl, hdecode, rfl, rfl⟩

end Operation
end ObjectSpace
