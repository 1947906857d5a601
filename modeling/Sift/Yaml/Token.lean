import Sift.Yaml.Node

namespace Sift.Yaml

/-! Tokens of a text. Blocks that begin and end by their indentation have tokens too. -/

inductive Token where
  | documentStart
  | documentEnd
  | blockList
  | blockMap
  | blockEnd
  | entry
  | key
  | value
  | flowList
  | flowListEnd
  | flowMap
  | flowMapEnd
  | comma
  | scalar (value : Scalar)
deriving DecidableEq

end Sift.Yaml
