import CssModules.Digest.Blake3
import CssModules.Digest.Md4
import CssModules.Digest.Md5
import CssModules.Digest.Sha1
import CssModules.Digest.Xxh64
import CssModules.Error

namespace CssModules.Digest

/-- A digest algorithm. -/
inductive Algorithm where
  | md4
  | md5
  | sha1
  | sha256
  | sha512
  | blake3
  | xxhash64
  deriving DecidableEq, Repr

namespace Algorithm

def all : List Algorithm := [md4, md5, sha1, sha256, sha512, blake3, xxhash64]

def name : Algorithm → String
  | md4 => "md4"
  | md5 => "md5"
  | sha1 => "sha1"
  | sha256 => "sha256"
  | sha512 => "sha512"
  | blake3 => "blake3"
  | xxhash64 => "xxhash64"

def digest : Algorithm → Bytes → Bytes
  | md4 => Md4.digest
  | md5 => Md5.digest
  | sha1 => Sha1.digest
  | sha256 => Sha2.sha256
  | sha512 => Sha2.sha512
  | blake3 => Blake3.digest
  | xxhash64 => Xxh64.digest

def ofName? (text : String) : Option Algorithm := all.find? (·.name == text.toLower)

def parse (text : String) : Except Error Algorithm :=
  match ofName? text with
  | some a => .ok a
  | none => .error (.configuration (.unknownAlgorithm text.toLower))

end Algorithm

end CssModules.Digest
