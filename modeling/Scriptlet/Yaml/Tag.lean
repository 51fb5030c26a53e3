import Scriptlet.Text.Regex

/-!
# Tags of YAML nodes

A tag says what kind of data a node stands for.  A node without a tag of its own gets one: lists
and maps by their shape, quoted scalars are strings, and a plain scalar is what it looks like.
-/

namespace Scriptlet.Yaml

set_option autoImplicit false

open Scriptlet.Text

/-- What a node stands for. -/
inductive Tag where
  | null | bool | int | float | binary | timestamp | omap | pairs | set | str | seq | map
  /-- The key `<<` whose value is merged into its map. -/
  | merge
  /-- The key `=` whose value is that of its map where a scalar is wanted. -/
  | value
  | other (name : String)
deriving DecidableEq, Repr

/-- The start of the names of the standard tags. -/
def standardTags : String := "tag:yaml.org,2002:"

/-- The tag of a full name. -/
def Tag.ofName (name : String) : Tag :=
  let standard : List (String × Tag) :=
    [("null", .null), ("bool", .bool), ("int", .int), ("float", .float), ("binary", .binary),
     ("timestamp", .timestamp), ("omap", .omap), ("pairs", .pairs), ("set", .set), ("str", .str),
     ("seq", .seq), ("map", .map), ("merge", .merge), ("value", .value)]
  match standard.find? fun t => standardTags ++ t.1 == name with
  | some t => t.2
  | none => .other name

namespace Plain

/-- The tag of a scalar that looks like the mark of a tag, an anchor or a reference.  No data have
it. -/
def reserved : String := standardTags ++ "yaml"

/-- A decimal digit. -/
def digit : Regex := .range '0' '9'

/-- A digit or an underscore. -/
def digitOrLine : Regex := .oneOf "0123456789_"

/-- A sign or nothing. -/
def sign : Regex := .opt (.oneOf "+-")

/-- Further places of a number in base sixty. -/
def sixties : Regex :=
  .plus (.all [.oneOf ":", .opt (.range '0' '5'), digit])

/-- An exponent, which needs a sign, or nothing. -/
def exponent : Regex :=
  .opt (.all [.oneOf "eE", .oneOf "+-", .plus digit])

/-- The words for truth values. -/
def bool : Regex :=
  .words ["yes", "Yes", "YES", "no", "No", "NO", "true", "True", "TRUE", "false", "False",
    "FALSE", "on", "On", "ON", "off", "Off", "OFF"]

/-- Numbers with a point. -/
def float : Regex :=
  .any [
    .all [sign, digit, .star digitOrLine, .oneOf ".", .star digitOrLine, exponent],
    .all [.oneOf ".", digit, .star digitOrLine, exponent],
    .all [sign, digit, .star digitOrLine, sixties, .oneOf ".", .star digitOrLine],
    .all [sign, .words [".inf", ".Inf", ".INF"]],
    .words [".nan", ".NaN", ".NAN"]]

/-- Numbers without a point, in base two, eight, ten, sixteen or sixty. -/
def int : Regex :=
  .all [sign, .any [
    .all [.word "0b", .plus (.oneOf "01_")],
    .all [.oneOf "0", .plus (.oneOf "01234567_")],
    .oneOf "0",
    .all [.range '1' '9', .star digitOrLine],
    .all [.word "0x", .plus (.oneOf "0123456789abcdefABCDEF_")],
    .all [.range '1' '9', .star digitOrLine, sixties]]]

/-- Absence. -/
def null : Regex :=
  .words ["~", "null", "Null", "NULL", ""]

/-- Dates, and points in time. -/
def timestamp : Regex :=
  let year : Regex := .all [digit, digit, digit, digit]
  let oneOrTwo : Regex := .all [digit, .opt digit]
  let zone : Regex :=
    .all [.star (.oneOf " \t"), .any [.oneOf "Z",
      .all [.oneOf "+-", oneOrTwo, .opt (.all [.oneOf ":", digit, digit])]]]
  .any [
    .all [year, .oneOf "-", digit, digit, .oneOf "-", digit, digit],
    .all [year, .oneOf "-", oneOrTwo, .oneOf "-", oneOrTwo,
      .any [.oneOf "Tt", .plus (.oneOf " \t")], oneOrTwo, .oneOf ":", digit, digit, .oneOf ":",
      digit, digit, .opt (.all [.oneOf ".", .star digit]), .opt zone]]

/-- A text without the newline at its end, which does not change what a scalar looks like. -/
def withoutNewline (text : List Char) : List Char :=
  if text.getLast? = some '\n' then text.dropLast else text

/-- What a scalar is, by its looks.  A point makes a number a float, and what looks like several
kinds is the first of them.  A newline alone looks like nothing. -/
def tag (text : List Char) : Tag :=
  let kinds : List (Regex × Tag) :=
    [(bool, .bool), (float, .float), (int, .int), (.word "<<", .merge), (null, .null),
     (timestamp, .timestamp), (.word "=", .value), (.words ["!", "&", "*"], .ofName reserved)]
  if text = ['\n'] then .str
  else
    match kinds.find? fun k => k.1.accepts (withoutNewline text) with
    | some k => k.2
    | none => .str

end Plain

end Scriptlet.Yaml
