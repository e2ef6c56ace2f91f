import ReleaseInstaller.Json.Basic

/-! Schemas of JSON documents, and the documents that describe them in turn. -/
namespace ReleaseInstaller

/-- What a schema says about a member besides its value. -/
structure MemberInfo where
  name : String
  description : String
  required : Bool
  /-- The value that a missing member stands for. -/
  fallback : Option Json
  deriving Repr

inductive Schema where
  | text
  | optionalText
  | truth
  | list (items : Schema)
  /-- An object whose members may have any names. -/
  | map (values : Schema)
  /-- An object in which the members listed have the given forms, and others any form. -/
  | record (members : List (MemberInfo × Schema))
  /-- A schema with a name of its own. -/
  | named (name description : String) (target : Schema)
  deriving Repr, Inhabited

namespace Schema
open Json

mutual

/-- The documents that a schema admits. -/
inductive Admits : Schema → Json → Prop where
  | text (s : String) : Admits .text (.text s)
  | someText (s : String) : Admits .optionalText (.text s)
  | noText : Admits .optionalText .null
  | truth (b : Bool) : Admits .truth (.bool b)
  | list {items : Schema} {vs : List Json} (h : AdmitsAll items vs) :
      Admits (.list items) (.array vs)
  | map {values : Schema} {members : List (String × Json)}
      (h : AdmitsAll values (members.map Prod.snd)) : Admits (.map values) (.object members)
  | record {fields : List (MemberInfo × Schema)} {members : List (String × Json)}
      (h : AdmitsMembers fields members) : Admits (.record fields) (.object members)
  | named {name description : String} {target : Schema} {v : Json} (h : Admits target v) :
      Admits (.named name description target) v

inductive AdmitsAll : Schema → List Json → Prop where
  | nil {s : Schema} : AdmitsAll s []
  | cons {s : Schema} {v : Json} {vs : List Json} (h : Admits s v) (hs : AdmitsAll s vs) :
      AdmitsAll s (v :: vs)

/-- Each listed member that is there has its form, and the required ones are there. -/
inductive AdmitsMembers : List (MemberInfo × Schema) → List (String × Json) → Prop where
  | nil {members : List (String × Json)} : AdmitsMembers [] members
  | missing {info : MemberInfo} {s : Schema} {fields : List (MemberInfo × Schema)}
      {members : List (String × Json)} (habsent : members.lookup info.name = none)
      (hoptional : info.required = false) (h : AdmitsMembers fields members) :
      AdmitsMembers ((info, s) :: fields) members
  | present {info : MemberInfo} {s : Schema} {fields : List (MemberInfo × Schema)}
      {members : List (String × Json)} {v : Json} (hpresent : members.lookup info.name = some v)
      (hv : Admits s v) (h : AdmitsMembers fields members) :
      AdmitsMembers ((info, s) :: fields) members

end

/-- The reference to a named schema. -/
def reference (name : String) : Json := .object [("$ref", .text ("#/definitions/" ++ name))]

/-- The members of an object under `key`, unless there are none. -/
def memberUnlessEmpty (key : String) (members : List (String × Json)) : List (String × Json) :=
  if members.isEmpty then [] else [(key, .object members)]

/-- The names of the members that have to be there. -/
def requiredNames (members : List (MemberInfo × Schema)) : List String :=
  (members.filter fun m => m.1.required).map fun m => m.1.name

mutual

/-- The keywords of a schema. Where it is named, they refer to it. -/
def keywords : Schema → List (String × Json)
  | text => [("type", .text "string")]
  | optionalText => [("type", .array [.text "string", .text "null"])]
  | truth => [("type", .text "boolean")]
  | list items => [("type", .text "array"), ("items", .object (keywords items))]
  | map values =>
    [("type", .text "object"), ("additionalProperties", .object (keywords values))]
  | record members =>
    [("type", .text "object")] ++
      (if (requiredNames members).isEmpty then []
        else [("required", .array ((requiredNames members).map .text))]) ++
      memberUnlessEmpty "properties" (properties members)
  | named name _ _ => [("$ref", .text ("#/definitions/" ++ name))]

/-- A member's keywords: a reference stands in a list of its own, since keywords beside it would not
count. -/
def properties : List (MemberInfo × Schema) → List (String × Json)
  | [] => []
  | (info, s) :: rest =>
    let own := match s with
      | named name _ _ => [("allOf", .array [reference name])]
      | _ => keywords s
    let fallback := match info.fallback with
      | some v => [("default", v)]
      | none => []
    (info.name, .object ([("description", .text info.description)] ++ fallback ++ own)) ::
      properties rest

end

/-- The keywords of the schema that a name stands for. -/
def targetKeywords : Schema → List (String × Json)
  | named _ _ target => targetKeywords target
  | s => keywords s

mutual

/-- The named schemas inside a schema, itself included, each with its name and description. -/
def definitions : Schema → List (String × String × Schema)
  | list items => definitions items
  | map values => definitions values
  | record members => memberDefinitions members
  | named name description target => (name, description, target) :: definitions target
  | _ => []

def memberDefinitions : List (MemberInfo × Schema) → List (String × String × Schema)
  | [] => []
  | (_, s) :: rest => definitions s ++ memberDefinitions rest

end

/-- The document that describes the schema of a record: the named schemas stand at its end, in the
order of their names. -/
def document (title description : String) (s : Schema) : Json :=
  let entries := (definitions s).map fun (name, description, target) =>
    (name, Json.object (("description", .text description) :: targetKeywords target))
  .object ([("$schema", .text "http://json-schema.org/draft-07/schema#"), ("title", .text title),
    ("description", .text description)] ++ keywords s ++
    memberUnlessEmpty "definitions" (entries.mergeSort fun a b => a.1 ≤ b.1))

end Schema

end ReleaseInstaller
