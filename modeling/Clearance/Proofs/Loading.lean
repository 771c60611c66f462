import Clearance.Proofs.DeclarationGrammar
import Clearance.Proofs.LineEnds
import Clearance.Storage.Load

/-!
# Loading a declared registry

A registry may be declared by a document in a file or by the value that this document denotes.
The value has the shape of a document (`Document.jsonIn_toValue`), and the document answers for its
parts as the value does (`Payload.reflects_document`), since both take the last one of the fields
with one name (`Document.bound?_table`). Hence a reading finds the same in both, and the modules are
put together in the same way (`Registry.load_eq_ofValue`). The line ends of the file make no
difference, since they are none to the document in it.
-/

namespace Clearance

namespace Document

variable {lists : List (List Value)} {name k : String} {v : Value}

/-! ## The value of a document -/

theorem toValues_eq_map (ds : List Document) : toValues ds = ds.map toValue := by
  induction ds with
  | nil => rfl
  | cons d ds ih => rw [toValues, ih, List.map_cons]

theorem toFields_eq_map (fs : List (String × Document)) :
    toFields fs = fs.map fun f => (f.1, f.2.toValue) := by
  induction fs with
  | nil => rfl
  | cons f fs ih => rw [toFields, ih, List.map_cons]

/-- A name that is bound is bound to the value given, and the other names are bound as before. -/
theorem bound?_bind (es : List (Value × Value)) :
    Context.bound? name (bind k v es) = if k = name then some v else Context.bound? name es := by
  induction es with
  | nil =>
    by_cases hk : k = name <;> simp [bind, Context.bound?, Value.foundAs?, Value.text?, hk]
  | cons e es ih =>
    obtain ⟨k', v'⟩ := e
    simp only [Context.bound?] at ih ⊢
    rw [bind]
    by_cases hk : k'.foundAs? = some k
    · rw [if_pos hk]
      by_cases hn : k = name <;> simp [hk, hn]
    · rw [if_neg hk, List.find?_cons, List.find?_cons]
      by_cases hn : k'.foundAs? = some name
      · have hne : k ≠ name := fun h => hk (h ▸ hn)
        simp [hn, hne]
      · rw [beq_eq_false_iff_ne.2 hn]
        exact ih

/-- Of the fields with one name the last one counts. -/
theorem bound?_table (fs : List (String × Value)) :
    Context.bound? name (table fs) = fs.reverse.lookup name := by
  induction fs using List.reverseRecOn with
  | nil => rfl
  | append_singleton fs f ih =>
    rw [table, List.foldl_append, List.reverse_append]
    show Context.bound? name (bind f.1 f.2 (table fs)) = _
    rw [bound?_bind, ih, List.reverse_singleton, List.singleton_append, List.lookup_cons]
    by_cases h : name = f.1
    · simp [h]
    · rw [if_neg (Ne.symm h), beq_eq_false_iff_ne.2 h]

theorem lookup_map_toValue (fs : List (String × Document)) :
    (fs.map fun f => (f.1, f.2.toValue)).lookup name = (fs.lookup name).map toValue := by
  induction fs with
  | nil => rfl
  | cons f fs ih =>
    rw [List.map_cons, List.lookup_cons, List.lookup_cons, ih]
    cases name == f.1 <;> rfl

/-- What is under a name in the value is the value of what is under it in the document. -/
theorem under?_toValue_object (fs : List (String × Document)) :
    Context.under? (toValue (.object fs)) name = (fs.reverse.lookup name).map toValue := by
  rw [toValue, Context.under?]
  show Context.bound? name _ = _
  rw [bound?_table, toFields_eq_map, ← List.map_reverse, lookup_map_toValue]

/-- The keys are texts, and what is under them has the shape of a document. -/
def IsTableIn (lists : List (List Value)) (es : List (Value × Value)) : Prop :=
  ∀ e ∈ es, (∃ k, e.1 = .text k) ∧ e.2.JsonIn lists

theorem IsTableIn.bind {es : List (Value × Value)} (h : IsTableIn lists es) (hv : v.JsonIn lists) :
    IsTableIn lists (bind k v es) := by
  induction es with
  | nil => exact List.forall_mem_singleton.2 ⟨⟨k, rfl⟩, hv⟩
  | cons e es ih =>
    obtain ⟨he, hes⟩ := List.forall_mem_cons.1 h
    rw [Document.bind]
    split
    · exact List.forall_mem_cons.2 ⟨⟨he.1, hv⟩, hes⟩
    · exact List.forall_mem_cons.2 ⟨he, ih hes⟩

theorem isTableIn_table {fs : List (String × Value)} (h : ∀ f ∈ fs, f.2.JsonIn lists) :
    IsTableIn lists (table fs) := by
  induction fs using List.reverseRecOn with
  | nil => exact fun _ he => absurd he List.not_mem_nil
  | append_singleton fs f ih =>
    rw [table, List.foldl_append]
    exact (ih fun g hg => h g (List.mem_append_left _ hg)).bind (h f (by simp))

theorem jsonIn_number (n : Numeral) : (n.toValue 0).JsonIn lists := by
  cases n <;> constructor

mutual

/-- The value of a document has the shape of one. -/
theorem jsonIn_toValue : ∀ d : Document, d.toValue.JsonIn lists
  | .null => .null
  | .bool b => .bool b
  | .number n => jsonIn_number n
  | .text s => .text s
  | .list items => .list (jsonIn_toValues items)
  | .object fields =>
    have h := isTableIn_table (jsonIn_toFields fields)
    .table (fun e he => (h e he).1) fun e he => (h e he).2

theorem jsonIn_toValues : ∀ ds : List Document, ∀ x ∈ toValues ds, x.JsonIn lists
  | [] => fun _ h => absurd h List.not_mem_nil
  | d :: ds => List.forall_mem_cons.2 ⟨jsonIn_toValue d, jsonIn_toValues ds⟩

theorem jsonIn_toFields : ∀ fs : List (String × Document), ∀ f ∈ toFields fs, f.2.JsonIn lists
  | [] => fun _ h => absurd h List.not_mem_nil
  | (_, d) :: fs => List.forall_mem_cons.2 ⟨jsonIn_toValue d, jsonIn_toFields fs⟩

end

end Document

/-- Documents answer for their parts as the values do that they denote. -/
theorem Payload.reflects_document (lists : List (List Value)) :
    Payload.document.Reflects lists (fun _ => True) Document.toValue where
  text {d} _ _ := by
    cases d with
    | number n => cases n <;> exact .pure _
    | _ => exact .pure _
  module _ := rfl
  registry _ := rfl
  isMapping {d} _ := by
    cases d with
    | number n => cases n <;> rfl
    | _ => rfl
  field {d} _ name := by
    cases d with
    | object fields =>
      exact ⟨fields.reverse.lookup name, (Document.under?_toValue_object fields).symm,
        fun _ _ => trivial, fun t _ => .pure _⟩
    | number n => exact ⟨none, by cases n <;> rfl, nofun, fun t _ => .pure _⟩
    | _ => exact ⟨none, rfl, nofun, fun t _ => .pure _⟩
  visit {d} _ := by
    cases d with
    | list items =>
      refine ⟨some items, ?_, fun _ _ _ _ => trivial, fun f g t ht hf => ?_⟩
      · rw [Document.toValue, Document.toValues_eq_map]
        rfl
      · refine (Run.reads_inTurn fun i x hx u hu => ?_).map fun ys => some (Visit.complete ys)
        exact hf items rfl i x hx u (hu.trans ht)
    | number n => exact ⟨none, by cases n <;> rfl, nofun, fun _ _ t _ _ => .pure _⟩
    | _ => exact ⟨none, rfl, nofun, fun _ _ t _ _ => .pure _⟩

/-! ## Loading -/

/-- A file that is there and holds a text is read with normal line ends. -/
theorem Storage.Tree.outcome_readText {tree : Storage.Tree} {location : Storage.Location}
    {octets : List UInt8} {text : String} (hnull : '\x00' ∉ location.given.toList)
    (hread : tree.read (.ofText location.given) = .ok octets)
    (htext : Text.Utf8.decode octets = .ok text) (s : Session) :
    (tree.readText location).outcome s =
      (.ok (String.ofList (Text.normalNewlines text.toList)), s) := by
  rw [readText, if_neg hnull]
  dsimp only
  rw [hread]
  dsimp only
  rw [htext]
  rfl

namespace Registry

variable {d : Document} {text : String} {s : Session}

theorem outcome_ofText (hd : Document.ofText? text = some d) :
    ∃ t, s.Looked t ∧ (ofText text).outcome s =
      match d.toValue.registryIssues s.lists with
      | [] => (ofDeclarations (d.toValue.declaredModules s.lists)).outcome t
      | es => (.error (.rejected ⟨.registry, .document, es⟩), t) := by
  rw [ofText, Document.accept, hd]
  exact outcome_accept (Payload.reflects_document s.lists) trivial

/-- Loading a file that holds a document comes to the same as reading the value which the document
denotes. Either both come to the same registry, with its modules in the same order, or both fail
since the name of the same scope is taken, or both refuse the declaration with the same issues at
the same places. In each case the same is written into the log. -/
theorem load_eq_ofValue (tree : Storage.Tree) (location : Storage.Location) (octets : List UInt8)
    (text : String) (d : Document) (s : Session) (hnull : '\x00' ∉ location.given.toList)
    (hread : tree.read (.ofText location.given) = .ok octets)
    (htext : Text.Utf8.decode octets = .ok text) (hd : Document.ofText? text = some d) :
    let loaded := (load tree location).outcome s
    let declared := (ofValue d.toValue).outcome s
    loaded.2.records = declared.2.records ∧
      ((∃ r, loaded.1 = .ok r ∧ declared.1 = .ok r) ∨
        (∃ scope, loaded.1 = .error (.duplicateScope scope) ∧
          declared.1 = .error (.duplicateScope scope)) ∨
        ∃ issues, issues ≠ [] ∧ loaded.1 = .error (.rejected ⟨.registry, .document, issues⟩) ∧
          declared.1 = .error (.rejected ⟨.registry, .value, issues⟩)) := by
  intro loaded declared
  have hload : loaded = (ofText (String.ofList (Text.normalNewlines text.toList))).outcome s := by
    show (load tree location).outcome s = _
    rw [load, Run.outcome_bind, Storage.Tree.outcome_readText hnull hread htext]
  -- both read the same, and have written nothing by the time they put modules together
  obtain ⟨t, hst, ht⟩ := outcome_ofText (s := s) (Document.ofText?_normalNewlines hd)
  obtain ⟨u, hsu, hu⟩ := outcome_ofValue (s := s) d.jsonIn_toValue
  have hrecords : t.records = u.records := hst.records.trans hsu.records.symm
  rw [hload, ht, show declared = _ from hu]
  cases d.toValue.registryIssues s.lists with
  | cons issue issues => exact ⟨hrecords, .inr (.inr ⟨_, List.cons_ne_nil _ _, rfl, rfl⟩)⟩
  | nil =>
    dsimp only [ofDeclarations]
    obtain ⟨x, es, hx⟩ := exists_outcome_assemble .empty
      ((d.toValue.declaredModules s.lists).map ModuleDeclaration.toModule)
    rw [hx t, hx u]
    refine ⟨by simp [hrecords], ?_⟩
    cases x with
    | ok r => exact .inl ⟨r, rfl, rfl⟩
    | error e =>
      obtain ⟨m, -, rfl⟩ := error_of_assemble (congrArg Prod.fst (hx s))
      exact .inr (.inl ⟨m.name, rfl, rfl⟩)

/-- A file with line ends of two kinds, in which neither of the items declares a module. -/
theorem load_eq_ofValue_line_ends :
    let text := "\x7b\"modules\":\r\n[1,\r\x7b\x7d]\x7d"
    let octets := text.toList.map fun c => UInt8.ofNat c.toNat
    let tree := Storage.Tree.empty.withFile ["registry"] octets
    let location := Storage.Location.text "registry"
    let d := Document.object [("modules", .list [.number (.integer 1), .object []])]
    let issues : List Issue :=
      [⟨[.field "modules", .index 0], .notRecord .module⟩,
        ⟨[.field "modules", .index 1, .field "name"], .missing⟩,
        ⟨[.field "modules", .index 1, .field "permissions"], .missing⟩]
    '\x00' ∉ location.given.toList ∧ tree.read (.ofText location.given) = .ok octets ∧
      Text.Utf8.decode octets = .ok text ∧ Document.ofText? text = some d ∧
      ((load tree location).outcome {}).2.records = ((ofValue d.toValue).outcome {}).2.records ∧
      ((load tree location).outcome {}).1 = .error (.rejected ⟨.registry, .document, issues⟩) ∧
      ((ofValue d.toValue).outcome {}).1 = .error (.rejected ⟨.registry, .value, issues⟩) := by
  have htokens : Token.ofText? "\x7b\"modules\":\r\n[1,\r\x7b\x7d]\x7d".toList = some
      [.openObject, .text "modules", .colon, .openList, .plain (.number (.integer 1)), .comma,
        .openObject, .closeObject, .closeList, .closeObject] := by
    refine Token.ofText?_cons "\"modules\":\r\n[1,\r\x7b\x7d]\x7d".toList rfl ?_
    refine Token.ofText?_cons ":\r\n[1,\r\x7b\x7d]\x7d".toList rfl ?_
    refine Token.ofText?_cons "\r\n[1,\r\x7b\x7d]\x7d".toList rfl ?_
    refine Token.ofText?_cons "1,\r\x7b\x7d]\x7d".toList rfl ?_
    refine Token.ofText?_cons ",\r\x7b\x7d]\x7d".toList rfl ?_
    refine Token.ofText?_cons "\r\x7b\x7d]\x7d".toList rfl ?_
    refine Token.ofText?_cons "\x7d]\x7d".toList rfl ?_
    refine Token.ofText?_cons "]\x7d".toList rfl ?_
    refine Token.ofText?_cons "\x7d".toList rfl ?_
    exact Token.ofText?_cons [] rfl (Token.ofText?_of_blank rfl)
  have hnull : '\x00' ∉ (Storage.Location.text "registry").given.toList := by decide
  have hread : ∀ octets, (Storage.Tree.empty.withFile ["registry"] octets).read
      (.ofText "registry") = .ok octets := fun _ => rfl
  have htext : Text.Utf8.decode ("\x7b\"modules\":\r\n[1,\r\x7b\x7d]\x7d".toList.map fun c =>
      UInt8.ofNat c.toNat) = .ok "\x7b\"modules\":\r\n[1,\r\x7b\x7d]\x7d" := rfl
  intro text octets tree location d issues
  have hd : Document.ofText? text = some d := by
    rw [Document.ofText?, htokens]
    rfl
  have hdeclared : ((ofValue d.toValue).outcome {}).1 =
      .error (.rejected ⟨.registry, .value, issues⟩) := rfl
  obtain ⟨hrecords, h⟩ :=
    load_eq_ofValue tree location octets text d {} hnull (hread octets) htext hd
  refine ⟨hnull, hread octets, htext, hd, hrecords, ?_, hdeclared⟩
  rw [hdeclared] at h
  rcases h with ⟨r, -, hr⟩ | ⟨scope, -, hscope⟩ | ⟨es, -, hloaded, hes⟩
  · cases hr
  · cases hscope
  · cases hes
    exact hloaded

end Registry

end Clearance
