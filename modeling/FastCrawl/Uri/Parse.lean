import FastCrawl.Bytes
import FastCrawl.Library.Decimal
import FastCrawl.Library.Regex

namespace FastCrawl

/-! The URI parser: a regular expression and its capture groups.

    ^(([A-Za-z%0-9]+)://)?(([A-Za-z%0-9]+)(:([A-Za-z0-9]+))@)?([A-Za-z%0-9.-]+)?
    (:([0-9]+))?([^?#]*)(\?([^#]*))?(#(.*))?$
-/

structure Uri where
  scheme : Bytes := []
  user : Bytes := []
  password : Bytes := []
  host : Bytes := []
  port : UInt16 := 0
  path : Bytes := []
  query : Bytes := []
  fragment : Bytes := []
deriving Repr, DecidableEq

def within (first last : Char) (ch : UInt8) : Bool := first.toUInt8 ≤ ch && ch ≤ last.toUInt8

def wordChar (ch : UInt8) : Bool := within 'A' 'Z' ch || within 'a' 'z' ch || within '0' '9' ch

def nameChar (ch : UInt8) : Bool := wordChar ch || ch == '%'.toUInt8

def hostChar (ch : UInt8) : Bool := nameChar ch || ch == '.'.toUInt8 || ch == '-'.toUInt8

def pathChar (ch : UInt8) : Bool := ch != '?'.toUInt8 && ch != '#'.toUInt8

def queryChar (ch : UInt8) : Bool := ch != '#'.toUInt8

def lineBreak (ch : UInt8) : Bool := ch == '\n'.toUInt8 || ch == '\r'.toUInt8

def plainChar (ch : UInt8) : Bool := !lineBreak ch

section Expression

open Regex

def schemeRegex : Regex UInt8 :=
  opt (group 1 (cat (group 2 (set nameChar).plus) (literal (bytes "://"))))

def userinfoRegex : Regex UInt8 :=
  opt (group 3 (cat (group 4 (set nameChar).plus)
    (cat (group 5 (cat (literal (bytes ":")) (group 6 (set wordChar).plus)))
      (literal (bytes "@")))))

def hostRegex : Regex UInt8 := opt (group 7 (set hostChar).plus)

def portRegex : Regex UInt8 :=
  opt (group 8 (cat (literal (bytes ":")) (group 9 (set Decimal.isDigit).plus)))

def pathRegex : Regex UInt8 := group 10 (set pathChar).star

def queryRegex : Regex UInt8 :=
  opt (group 11 (cat (literal (bytes "?")) (group 12 (set queryChar).star)))

def fragmentRegex : Regex UInt8 :=
  opt (group 13 (cat (literal (bytes "#")) (group 14 (set plainChar).star)))

def sRegex : Regex UInt8 :=
  cat bol (cat schemeRegex (cat userinfoRegex (cat hostRegex (cat portRegex
    (cat pathRegex (cat queryRegex (cat fragmentRegex eol)))))))

end Expression

/-- `port_ss >> port` of a nonempty string of digits; `none` if the stream fails,
which it does when the number is too large for a `uint16_t`. -/
def extractPort (digits : Bytes) : Option UInt16 :=
  if Decimal.read digits ≤ 65535 then some (.ofNat (Decimal.read digits)) else none

def Uri.parse (uri : Bytes) : Except AssertionFailure Uri :=
  match sRegex.fullMatch uri with
  | none => .ok {}
  | some bref =>
      match if bref.text 9 = [] then some 0 else extractPort (bref.text 9) with
      | none => .error .portExtraction
      | some port =>
          .ok {
            scheme := bref.text 2, user := bref.text 4, password := bref.text 6,
            host := bref.text 7, port, path := bref.text 10, query := bref.text 12,
            fragment := bref.text 14 }

/-- The URI that `html_crawler::download` asks for. -/
def downloadUri (mHost uriStr : Bytes) : Except AssertionFailure Uri :=
  (Uri.parse uriStr).map fun uri => if uri.host = [] then { uri with host := mHost } else uri

end FastCrawl
