import ScriptOptimizer.Proofs.Syntax.Located
import ScriptOptimizer.Proofs.Walk.Sights

/-!
The order of a document. Its objects, each before those in its values and values in the order of
their keys, are the nodes of the tree as a walk meets them: object by object they have the types of
the nodes and, where it has locations, their ranges. The value of a shorthand property is written
again though a walk does not go there, so there may be none.
-/

namespace ScriptOptimizer

namespace Json

mutual

/-- The objects that have a type, told by their fields: an object before those in its values. -/
@[simp] def typed : Json → List (List (Bytes × Json))
  | array items => typedItems items
  | object fields =>
    (if (get? "type" fields).isSome then [fields] else []) ++ typedFields fields
  | null | bool _ | int _ | number _ | text _ => []

/-- The objects among the items of an array. -/
@[simp] def typedItems : List Json → List (List (Bytes × Json))
  | [] => []
  | item :: items => typed item ++ typedItems items

/-- The objects among the values of fields. -/
@[simp] def typedFields : List (Bytes × Json) → List (List (Bytes × Json))
  | [] => []
  | (_, value) :: fields => typed value ++ typedFields fields

end

theorem typedFields_append (fields more : List (Bytes × Json)) :
    typedFields (fields ++ more) = typedFields fields ++ typedFields more := by
  induction fields with
  | nil => rw [typedFields, List.nil_append, List.nil_append]
  | cons field fields ih =>
    rw [List.cons_append, typedFields, typedFields, ih, List.append_assoc]

theorem typedItems_map {α : Type} (f : α → Json) (list : List α) :
    typedItems (list.map f) = list.flatMap fun a => typed (f a) := by
  induction list with
  | nil => rw [List.map_nil, typedItems, List.flatMap_nil]
  | cons a list ih => rw [List.map_cons, typedItems, ih, List.flatMap_cons]

end Json

/-- The lines and the columns of a range, these counted from zero, as fields of a document. -/
def Span.loc (s : Span) : Json :=
  let place (p : Place) : Json := .object [("column", .int (p.column - 1)), ("line", .int p.line)]
  .object [("end", place s.stop), ("start", place s.start)]

/-- The offsets of a range as an item of a document. -/
def Span.range (s : Span) : Json := .array [.int s.start.offset, .int s.stop.offset]

/-- Is it an entry, and not a name that stands for its key and its value? -/
def Property.IsFull : Property → Prop
  | .absent => False
  | .entry _ _ _ _ _ shorthand => shorthand = false

namespace Node

/-- Are the properties that the node has, or is, full ones? -/
def HasFullProperties : Node → Prop
  | expr (.object _ list) | expr (.objectPattern _ list) => ∀ p ∈ list, p.IsFull
  | property p => p.IsFull
  | _ => True

end Node

namespace Document

open Json (typed typedItems typedFields)

variable {locations : Bool}

/-- The names of the fields that every object has. -/
def common : List Bytes := ["type", "loc", "range"]

/-- The names of the fields that show parts of a node. -/
def partNames : List String :=
  ["alternate", "argument", "arguments", "block", "body", "callee", "cases", "computed",
    "consequent", "declarations", "defaults", "discriminant", "each", "elements", "expression",
    "expressions", "finalizer", "generator", "handler", "id", "init", "key", "kind", "label",
    "left", "name", "object", "operator", "param", "params", "prefix", "properties", "property",
    "raw", "regex", "rest", "right", "shorthand", "test", "update", "value"]

theorem not_common {name : Bytes} (h : name ∈ partNames.map Bytes.ofString) : name ∉ common := by
  have hApart : (partNames.all fun part => Bytes.ofString part ∉ common) = true := by
    decide +kernel
  obtain ⟨part, hPart, rfl⟩ := List.mem_map.1 h
  simpa using List.all_eq_true.1 hApart part hPart

/-- What the objects below the children of a node are told by. -/
def below (locations : Bool) (children : List Child) : List (List (Bytes × Json)) :=
  children.flatMap fun c => (c.node.document locations).typed

theorem below_nil : below locations [] = [] := rfl

theorem below_append (front back : List Child) :
    below locations (front ++ back) = below locations front ++ below locations back :=
  List.flatMap_append

/-! ### Parts -/

theorem typed_text (text : Bytes) : typed (.text text) = [] := by rw [typed]

theorem typed_bool (value : Bool) : typed (.bool value) = [] := by rw [typed]

theorem typed_slot (s : Slot) : typed (slot locations s) = below locations (Child.slot s) := by
  cases s with
  | holds e => rw [slot, Child.slot, below, List.flatMap_singleton, Node.document]
  | absent => rw [slot, typed]; rfl
  | vacant => rw [slot, typed]; rfl

theorem typed_slots (list : List Slot) :
    typed (.array (slots locations list)) = below locations (Child.slots list) := by
  rw [typed, slots_eq, Json.typedItems_map, below, Child.slots, List.flatMap_assoc]
  exact congrArg (List.flatMap · list) (funext typed_slot)

theorem typed_stmt (s : Stmt) : typed (stmt locations s) = below locations (Child.stmt s) := by
  cases s with
  | absent => rw [stmt, typed]; rfl
  | _ => exact (List.append_nil _).symm

theorem typed_stmts (list : List Stmt) :
    typed (.array (stmts locations list)) = below locations (Child.stmts list) := by
  rw [typed, stmts_eq, Json.typedItems_map, below, Child.stmts, List.flatMap_assoc]
  exact congrArg (List.flatMap · list) (funext typed_stmt)

theorem typed_ident (id : Option Ident) :
    typed (ident locations id) = below locations (Child.ident id) := by
  cases id with
  | none => rw [ident, typed, Child.ident, below, List.flatMap_nil]
  | some id =>
    rw [Child.ident, below, List.flatMap_singleton, Node.document, expr]
    rfl

theorem typed_block (b : Block) : typed (block locations b) = below locations (Child.block b) := by
  rw [Child.block, ← typed_stmt]
  cases b with
  | absent => rw [block, Block.stmt, stmt]
  | braces => rw [block, Block.stmt, stmt]

theorem typed_properties (list : List Property) :
    typed (.array (properties locations list)) = below locations (Child.properties list) := by
  rw [typed, properties_eq, Json.typedItems_map, below, Child.properties, List.flatMap_assoc]
  refine congrArg (List.flatMap · list) (funext fun p => ?_)
  cases p with
  | absent => rw [property, typed]; rfl
  | entry => rw [List.flatMap_singleton, Node.document]

theorem typed_declarators (list : List Declarator) :
    typed (.array (declarators locations list)) = below locations (Child.declarators list) := by
  rw [typed, declarators_eq, Json.typedItems_map, below, Child.declarators, List.flatMap_map]
  rfl

theorem typed_cases (list : List Case) :
    typed (.array (cases locations list)) =
      below locations (list.map fun c => ⟨.case c, false⟩) := by
  rw [typed, cases_eq, Json.typedItems_map, below, List.flatMap_map]
  rfl

theorem typed_handler (h : Handler) :
    typed (handler locations h) = below locations (match h with
      | .absent => []
      | h => [⟨.handler h, false⟩]) := by
  cases h with
  | absent => rw [handler, typed]; rfl
  | clause => rw [below, List.flatMap_singleton, Node.document]

theorem typed_forHead (head : ForHead) :
    typed (forHead locations head) = below locations (Child.forHead head) := by
  cases head with
  | absent => rw [forHead, typed]; rfl
  | declaration =>
    rw [Child.forHead, below, List.flatMap_singleton, Node.document, forHead, stmt]
  | expression s => rw [forHead, typed_slot, Child.forHead]

theorem typedFields_function (fn : Function) :
    typedFields (function locations fn) = below locations (Child.function fn) := by
  cases fn with
  | mk id params defaults rest body generator =>
    rw [function, Child.function]
    simp only [below_append, typedFields, typed_ident, typed_slots, typed_block, typed_bool,
      List.append_assoc, List.append_nil]

/-! ### Nodes -/

/-- The fields show the parts of a node: they have the names for that, and the objects in them are
those of the children, in order. -/
structure Shows (locations : Bool) (n : Node) (fields : List (Bytes × Json)) : Prop where
  document : n.document locations = object locations n.type n.span fields
  names : ∀ field ∈ fields, field.1 ∈ partNames.map Bytes.ofString
  typed : typedFields fields = below locations n.children

theorem function_names {fn : Function} {field : Bytes × Json} (h : field ∈ function locations fn) :
    field.1 ∈ partNames.map Bytes.ofString := by
  cases fn with
  | mk =>
    rw [function] at h
    revert h field
    simp [partNames]

theorem literal_names {lit : Literal} {field : Bytes × Json} (h : field ∈ literal lit) :
    field.1 ∈ partNames.map Bytes.ofString := by
  unfold literal regexField at h
  revert h field
  split <;> simp [partNames]

theorem typedFields_literal (lit : Literal) : typedFields (literal lit) = [] := by
  have hValue : typed (literalValue lit.value) = [] := by
    unfold literalValue
    split <;> try split
    all_goals rw [typed]
  have hRegex : typedFields (regexField lit.value) = [] := by
    unfold regexField
    split
    · simp only [typedFields, typed, List.append_nil]
      rfl
    · rw [typedFields]
  rw [literal, typedFields, typedFields, hValue, typed_text, hRegex]
  rfl

theorem expr_shows (e : Expr) : ∃ fields, Shows locations (.expr e) fields := by
  cases e with
  | literal lit =>
    exact ⟨_, by rw [Node.document, expr]; rfl, fun _ => literal_names, typedFields_literal lit⟩
  | function s fn =>
    exact ⟨_, by rw [Node.document, expr]; rfl, fun _ => function_names, typedFields_function fn⟩
  | _ =>
    refine ⟨_, by rw [Node.document, expr]; rfl, by simp [partNames], ?_⟩
    simp only [typedFields, typed_text, typed_bool, typed_slot, typed_slots, typed_properties,
      Node.children, Child.ofExpr, below_nil, below_append, List.nil_append, List.append_nil,
      List.append_assoc]

theorem stmt_shows {s : Stmt} (h : (Node.stmt s).isPresent = true) :
    ∃ fields, Shows locations (.stmt s) fields := by
  cases s with
  | absent => cases h
  | function s fn =>
    exact ⟨_, by rw [Node.document, stmt]; rfl, fun _ => function_names, typedFields_function fn⟩
  | tryCatch s main guard finalizer =>
    refine ⟨_, by rw [Node.document, stmt]; rfl, by simp [partNames], ?_⟩
    simp only [typedFields, typed_block, Node.children, Child.ofStmt, below_append, List.append_nil,
      List.append_assoc]
    exact congrArg (_ ++ ·) (congrArg (· ++ _) (typed_handler guard))
  | _ =>
    refine ⟨_, by rw [Node.document, stmt]; rfl, by simp [partNames], ?_⟩
    simp only [typedFields, typed_text, typed_bool, typed_slot, typed_stmt, typed_stmts,
      typed_ident, typed_declarators, typed_cases, typed_forHead, Node.children, Child.ofStmt,
      below_nil, below_append, List.append_nil, List.append_assoc]

/-- The document of a node shows its parts. -/
theorem node_shows (locations : Bool) {n : Node} (hPresent : n.isPresent = true)
    (hFull : n.HasFullProperties) : ∃ fields, Shows locations n fields := by
  cases n with
  | program p =>
    refine ⟨_, rfl, by simp [partNames], ?_⟩
    rw [typedFields, typedFields, typed_stmts, List.append_nil, Node.children]
  | stmt s => exact stmt_shows hPresent
  | expr e => exact expr_shows e
  | property p =>
    cases p with
    | absent => cases hPresent
    | entry s kind key value computed shorthand =>
      rw [show shorthand = false from hFull]
      refine ⟨_, by rw [Node.document, property]; rfl, by simp [partNames], ?_⟩
      simp only [typedFields, typed_text, typed_bool, typed_slot, Node.children, below_append,
        Bool.false_eq_true, if_false, List.append_nil]
  | case c =>
    cases c with
    | clause s test consequent =>
      refine ⟨_, by rw [Node.document, case]; rfl, by simp [partNames], ?_⟩
      simp only [typedFields, typed_slot, typed_stmts, Node.children, below_append,
        List.append_nil]
  | handler g =>
    cases g with
    | absent => cases hPresent
    | clause s param body =>
      refine ⟨_, by rw [Node.document, handler]; rfl, by simp [partNames], ?_⟩
      simp only [typedFields, typed_slot, typed_block, Node.children, below_append,
        List.append_nil]
  | declarator d =>
    cases d with
    | bind s id init =>
      refine ⟨_, by rw [Node.document, declarator]; rfl, by simp [partNames], ?_⟩
      simp only [typedFields, typed_slot, Node.children, below_append, List.append_nil]

section

variable {n : Node} {fields : List (Bytes × Json)}

/-- A field that every object has is none of those that show parts. -/
theorem Shows.get? (h : Shows locations n fields) {key : Bytes} (hKey : key ∈ common)
    (front back : List (Bytes × Json)) :
    Json.get? key (front ++ fields ++ back) = Json.get? key (front ++ back) := by
  have hNone : fields.find? (fun field => field.1 = key) = none := by
    rw [List.find?_eq_none]
    intro field hField
    have hApart := not_common (h.names field hField)
    simpa using fun hEq : field.1 = key => hApart (hEq ▸ hKey)
  rw [Json.get?, Json.get?, List.find?_append, List.find?_append, List.find?_append, hNone,
    Option.or_none]

end

/-- What an object says of its node: the type and where it is. -/
def heading (fields : List (Bytes × Json)) : Option Json × Option Json × Option Json :=
  (Json.get? "type" fields, Json.get? "loc" fields, Json.get? "range" fields)

/-- The type of a node and, where a document has locations, its range. -/
def headingOf (locations : Bool) (n : Node) : Option Json × Option Json × Option Json :=
  (some (.text n.type), if locations then some n.span.loc else none,
    if locations then some n.span.range else none)

/-- A node is an object with its type and its range, before the objects of its children. -/
theorem Shows.headings {n : Node} {fields : List (Bytes × Json)} (h : Shows locations n fields) :
    (n.document locations).typed.map heading =
      headingOf locations n :: (below locations n.children).map heading := by
  have hHeading : heading ([(Bytes.ofString "type", Json.text n.type)] ++ fields ++
      location locations n.span) = headingOf locations n := by
    rw [heading, h.get? (by decide), h.get? (by decide), h.get? (by decide)]
    cases locations <;> rfl
  have hLocation : typedFields (location locations n.span) = [] := by
    cases locations
    · rw [location, if_neg Bool.false_ne_true, typedFields]
    · rfl
  have hType : (Json.get? "type" ((Bytes.ofString "type", Json.text n.type) :: fields ++
      location locations n.span)).isSome = true := rfl
  rw [h.document, object, Json.typed, if_pos hType, Json.typedFields_append, typedFields, h.typed,
    hLocation, typed_text]
  simpa using hHeading

end Document

namespace Node

open Document (heading headingOf below)

theorem typed_document (locations : Bool) (n : Node) (hPresent : n.isPresent = true)
    (hFull : ∀ m ∈ n.preorder, m.HasFullProperties) :
    (n.document locations).typed.map heading = n.preorder.map (headingOf locations) := by
  induction n using childInduction with
  | step n ih =>
    obtain ⟨fields, hShows⟩ := Document.node_shows locations hPresent
      (hFull n (self_mem_preorder n))
    have hBelow : (below locations n.children).map heading =
        (n.children.flatMap fun c => c.node.preorder).map (headingOf locations) := by
      rw [below, List.map_flatMap, List.map_flatMap, List.flatMap_def, List.flatMap_def]
      refine congrArg List.flatten (List.map_congr_left fun c hc => ?_)
      refine ih c hc (isPresent_child hc) fun m hm => hFull m ?_
      rw [preorder_eq]
      exact List.mem_cons_of_mem _ (List.mem_flatMap.2 ⟨c, hc, hm⟩)
    rw [hShows.headings, hBelow, preorder_eq, List.map_cons]

/-- The objects of a document are the nodes of its tree in pre-order: they have the types of these
and, in a document with locations, the lines, the columns from zero and the offsets of their
ranges. -/
theorem document_ordered (n : Node) (hPresent : n.isPresent = true)
    (hFull : ∀ m ∈ n.preorder, m.HasFullProperties) :
    (∀ locations, (n.document locations).typed.map (Json.get? "type") =
      n.preorder.map fun m => some (.text m.type)) ∧
    ((n.document true).typed.map fun fields =>
        (Json.get? "loc" fields, Json.get? "range" fields)) =
      n.preorder.map fun m => (some m.span.loc, some m.span.range) := by
  constructor
  · intro locations
    have h := congrArg (List.map (·.1)) (typed_document locations n hPresent hFull)
    rw [List.map_map, List.map_map] at h
    exact h
  · have h := congrArg (List.map (·.2)) (typed_document true n hPresent hFull)
    rw [List.map_map, List.map_map] at h
    exact h

/-- An array with a hole before an object: the hole is no object, and the entry comes before its
key and its value. -/
theorem document_ordered_hole :
    let span : Span := ⟨⟨1, 1, 0⟩, ⟨1, 11, 10⟩⟩
    let name : Ident := ⟨⟨⟨1, 5, 4⟩, ⟨1, 6, 5⟩⟩, Bytes.ofString "a"⟩
    let entry : Property := .entry span (Bytes.ofString "init") (.holds (.ident name))
      (.holds (.this span)) false false
    let n := Node.expr (.array span [.absent, .holds (.object span [entry])])
    n.isPresent = true ∧ (∀ m ∈ n.preorder, m.HasFullProperties) ∧
      (n.document true).typed.map (Json.get? "type") =
        (["ArrayExpression", "ObjectExpression", "Property", "Identifier", "ThisExpression"] :
          List NodeType).map fun type => some (.text type) := by
  intro span name entry n
  have hOrder : n.preorder = [n, .expr (.object span [entry]), .property entry,
      .expr (.ident name), .expr (.this span)] := by
    rw [preorder_eq n, show n.children = [⟨.expr (.object span [entry]), true⟩] from rfl,
      List.flatMap_singleton, preorder_eq (.expr (.object span [entry])),
      show (Node.expr (.object span [entry])).children = [⟨.property entry, false⟩] from rfl,
      List.flatMap_singleton, preorder_eq (.property entry),
      show (Node.property entry).children =
        [⟨.expr (.ident name), true⟩, ⟨.expr (.this span), true⟩] from rfl,
      List.flatMap_cons, List.flatMap_singleton, preorder_eq, preorder_eq (.expr (.this span))]
    rfl
  have hFull : ∀ m ∈ n.preorder, m.HasFullProperties := by
    rw [hOrder]
    simp [n, entry, HasFullProperties, Property.IsFull]
  refine ⟨rfl, hFull, ?_⟩
  rw [(document_ordered n rfl hFull).1 true, hOrder]
  rfl

end Node

end ScriptOptimizer
