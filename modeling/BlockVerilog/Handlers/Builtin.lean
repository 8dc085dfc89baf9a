import BlockVerilog.Handlers.Binary
import BlockVerilog.Handlers.Block
import BlockVerilog.Handlers.Compound
import BlockVerilog.Handlers.Conditional
import BlockVerilog.Handlers.Module
import BlockVerilog.Handlers.Net
import BlockVerilog.Handlers.SizedLiteral
import BlockVerilog.Handlers.SystemTask
import BlockVerilog.Pass.Generator

/-!
The table of built-in kinds, and generation with it.
-/

namespace BlockVerilog

namespace Handlers

/-- Every built-in kind with its handler. -/
def builtin : List (String × Handler) :=
  [("logic_boolean", truthValue),
    ("logic_null", constant "X"),
    ("dont_care", constant "X"),
    ("high_impedence", constant "Z"),
    ("one", constant "1"),
    ("zero", constant "0"),
    ("math_number", number),
    ("variables_get", variableRead),
    ("decimal_binary_return", sizedValue .binary),
    ("decimal_hexa_return", sizedValue .hex),
    ("decimal_octal_return", sizedValue .octal),
    ("decimal_binary", sizedStatement .binary),
    ("decimal_hexa", sizedStatement .hex),
    ("decimal_octa", sizedStatement .octal),
    ("logic_compare", binary comparison?),
    ("logic_operation", logicSigns),
    ("logic_operation_2", logicWords),
    ("logic_operation3", binary bitwise?),
    ("logic_negate", negation "!"),
    ("logic_negate3", negation "~"),
    ("logic_ternary", ternary),
    ("math_arithmetic", binary arithmetic?),
    ("pos_edge", edge "posedge"),
    ("neg_edge", edge "negedge"),
    ("bit_select", bitSelect),
    ("concat", concatenation),
    ("replicate", replication),
    ("module_dec", moduleHead),
    ("module_test", testHead),
    ("end_module", fixedLine "endmodule"),
    ("input_block", port "input"),
    ("output_block", port "output"),
    ("wire_block", port "wire"),
    ("reg_block", port "reg"),
    ("inout_block", port "inout"),
    ("input_simu", port "reg"),
    ("output_simu", port "wire"),
    ("and_block", gate "and"),
    ("or_block", gate "or"),
    ("xor_block", gate "xor"),
    ("nand_block", gate "nand"),
    ("nor_block", gate "nor"),
    ("xnor_block", gate "xnor"),
    ("not_gate", inverter),
    ("assign_block", assignment "assign " "="),
    ("variables_set_parallel", assignment "" "<="),
    ("always_blk", alwaysBlock),
    ("always_simu", alwaysDelay),
    ("intial", initialBlock "begin" "end"),
    ("intial_par", initialBlock "fork" "join"),
    ("controls_if", conditional),
    ("controls_ifelse", conditional),
    ("if_else_block", twoWayConditional),
    ("time_block", delay),
    ("display_block", display),
    ("monitor_block", monitor),
    ("finish_block", fixedLine "$finish;")]

end Handlers

/-- The table of built-in kinds. -/
def HandlerTable.builtin : HandlerTable := .ofList Handlers.builtin

/-- The code of a graph with the built-in handlers. -/
def generate (graph : Graph) (roots : List NodeId) (config : Config) : Except PassError String :=
  (Generator.mk graph .builtin config).code roots

end BlockVerilog
